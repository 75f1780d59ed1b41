/-
Filters built by `where` (`crates/nanocl_stubs/src/generic.rs`) and the filter of `nanocl ps`
(`bin/nanocl/src/models/process.rs`).

The conditions of a filter are a map from a key to one clause, so a second `where` on a key replaces the clause of the
first. `nanocl ps` asks for the running processes and for those of a namespace on the same key, `data`: with a namespace
the first of the two is lost.

`Meets` says what a clause asks of a row, on any type and whatever the compiler makes of it; `Passes` is what is left of
it in the query.

- `mem_conditions_wheres`: a sequence of calls leaves the last clause of each key.
- `sat_iff_branches`: a compiled filter accepts a row exactly if the row passes all of its conditions, or all of a group.
- `columnClause_holds`: the query asks what the clause asks, where the type has a case for it and its texts can be read.
- `keeps_iff_implied`: a conjunction of conditions implies a clause exactly if its conditions on the column of the clause
  do, or if it contradicts itself on some column.
- `keeps_of_distinct`: clauses on different keys that fit their columns are all kept.
- `filter_keeps_iff`: when a filter keeps what was added, and when `nanocl ps` lists what was asked for.
-/
import Nanocl.Store.OrderBy

namespace Nanocl

open Nanocl.Lib

/-- a sequence of `where` calls -/
def GenericFilter.wheres (f : GenericFilter) (calls : Conditions) : GenericFilter :=
  calls.foldl (fun f c => f.where c.1 c.2) f

/-- the conditions of the filter -/
def GenericFilter.conditions (f : GenericFilter) : Conditions := (f.clause.getD ⟨[], none⟩).conditions

/-- the clause of the last call on a key -/
def lastOn (calls : Conditions) (key : String) : Option GenericClause :=
  (calls.reverse.find? fun c => c.1 = key).map Prod.snd

/-- the condition is left after the calls: the last call on its key has it, or it was there and no call is on its key -/
def Left (f : GenericFilter) (calls : Conditions) (d : String × GenericClause) : Prop :=
  match lastOn calls d.1 with
  | some clause => d.2 = clause
  | none => d ∈ f.conditions

theorem Conditions.mem_insert_iff (c : Conditions) (key : String) (clause : GenericClause)
    (d : String × GenericClause) : d ∈ c.insert key clause ↔ d = (key, clause) ∨ d.1 ≠ key ∧ d ∈ c := by
  constructor
  · intro h
    unfold Conditions.insert at h
    split_ifs at h with hany
    · obtain ⟨p, hp, rfl⟩ := List.mem_map.1 h
      split_ifs with hk
      · exact Or.inl rfl
      · exact Or.inr ⟨hk, hp⟩
    · rcases List.mem_append.1 h with h | h
      · refine Or.inr ⟨fun hk => hany ?_, h⟩
        exact List.any_eq_true.2 ⟨d, h, decide_eq_true hk⟩
      · exact Or.inl (List.mem_singleton.1 h)
  · rintro (rfl | ⟨hk, hd⟩)
    · exact c.mem_insert key clause
    · unfold Conditions.insert
      split_ifs
      · exact List.mem_map.2 ⟨d, hd, if_neg hk⟩
      · exact List.mem_append_left _ hd

@[simp] theorem GenericFilter.wheres_append (f : GenericFilter) (calls : Conditions) (c : String × GenericClause) :
    f.wheres (calls ++ [c]) = (f.wheres calls).where c.1 c.2 := List.foldl_append

@[simp] theorem GenericFilter.conditions_where (f : GenericFilter) (key : String) (clause : GenericClause) :
    (f.where key clause).conditions = f.conditions.insert key clause := rfl

@[simp] theorem GenericFilter.groups_where (f : GenericFilter) (key : String) (clause : GenericClause) :
    (f.where key clause).groups = f.groups := rfl

/-- the calls leave the groups alone -/
@[simp] theorem GenericFilter.groups_wheres (f : GenericFilter) (calls : Conditions) :
    (f.wheres calls).groups = f.groups := by
  induction calls using List.reverseRecOn with
  | nil => rfl
  | append_singleton calls c ih => rw [wheres_append, groups_where, ih]

/-- and the last clause on each key -/
theorem mem_conditions_wheres (f : GenericFilter) (calls : Conditions) (d : String × GenericClause) :
    d ∈ (f.wheres calls).conditions ↔ Left f calls d := by
  induction calls using List.reverseRecOn with
  | nil => rfl
  | append_singleton calls c ih =>
    rw [GenericFilter.wheres_append, GenericFilter.conditions_where, Conditions.mem_insert_iff, ih]
    unfold Left lastOn
    rw [List.reverse_append, List.reverse_singleton, List.singleton_append, List.find?_cons]
    by_cases hk : c.1 = d.1
    · simp [hk, Prod.ext_iff]
    · simp [hk, Prod.ext_iff, Ne.symm hk]

section

variable (E : Externals) (columns : Columns)

/-! ## What a compiled filter accepts -/

/-- the column of a condition and the predicate on its values; none where the compiler leaves the condition out -/
def predicateOf (c : String × GenericClause) : Option (String × (Value → Bool)) :=
  match columns.get c.1 with
  | none => none
  | some (type, column) =>
    match columnClause E type c.2 with
    | .ok (some p) => some (column, p)
    | _ => none

/-- the row is accepted by what the compiler makes of the clause -/
def Passes (row : Row) (c : String × GenericClause) : Prop :=
  ∀ column p, predicateOf E columns c = some (column, p) → p (row column) = true

theorem passes_of_none {c : String × GenericClause} (h : predicateOf E columns c = none) (row : Row) :
    Passes E columns row c := by
  intro column p hp
  rw [h] at hp
  cases hp

theorem passes_of_some {c : String × GenericClause} {column : String} {p : Value → Bool}
    (h : predicateOf E columns c = some (column, p)) (row : Row) : Passes E columns row c ↔ p (row column) = true := by
  simp [Passes, h]

/-- a step over the conditions, by the predicate of the condition -/
theorem genSqlWhere_of_predicate {query query' : Where Row} {c : String × GenericClause}
    (h : genSqlWhere E columns query c = .ok query') :
    (predicateOf E columns c = none ∧ query' = query) ∨
      ∃ column p, predicateOf E columns c = some (column, p) ∧ query' = query.filter fun row => p (row column) := by
  unfold predicateOf
  cases hc : columns.get c.1 with
  | none =>
    rw [genSqlWhere_of_none E hc] at h
    exact .inl ⟨rfl, (Except.ok.inj h).symm⟩
  | some tc =>
    rw [genSqlWhere_of_some E hc, Except.map_eq_ok_iff] at h
    obtain ⟨r, hr, rfl⟩ := h
    simp only [hr]
    cases r with
    | none => exact .inl ⟨rfl, rfl⟩
    | some p => exact .inr ⟨tc.2, p, rfl, rfl⟩

/-- a step over a group -/
theorem genSqlAnd_eq {p p' : Row → Bool} {c : String × GenericClause} (h : genSqlAnd E columns p c = .ok p')
    (row : Row) : p' row = true ↔ p row = true ∧ Passes E columns row c := by
  cases hc : columns.get c.1 with
  | none =>
    have hnone : predicateOf E columns c = none := by simp [predicateOf, hc]
    rw [genSqlAnd_of_none E hc] at h
    rw [← Except.ok.inj h]
    exact (and_iff_left (passes_of_none E columns hnone row)).symm
  | some tc =>
    rw [genSqlAnd_of_some E hc, Except.bind_eq_ok_iff] at h
    obtain ⟨r, hr, h⟩ := h
    cases r with
    | none => cases h
    | some q =>
      have hsome : predicateOf E columns c = some (tc.2, q) := by simp [predicateOf, hc, hr]
      rw [← Except.ok.inj h, passes_of_some E columns hsome, Bool.and_eq_true]

/-- the compiled conditions are a clause if one of them has a predicate, and then accept the rows that pass them all -/
theorem conditions_eq {conditions : Conditions} {query query' : Where Row}
    (h : conditions.foldlM (genSqlWhere E columns) query = .ok query') :
    (query'.isSome = true ↔ query.isSome = true ∨ ∃ c ∈ conditions, predicateOf E columns c ≠ none) ∧
      ∀ row, query'.sat row = true ↔ query.sat row = true ∧ ∀ c ∈ conditions, Passes E columns row c := by
  induction conditions generalizing query with
  | nil =>
    rw [List.foldlM_nil, Except.pure_eq_ok, Except.ok.injEq] at h
    simp [h]
  | cons c conditions ih =>
    rw [List.foldlM_cons, Except.bind_eq_ok_iff] at h
    obtain ⟨q, hq, h⟩ := h
    obtain ⟨hsome, hsat⟩ := ih h
    rcases genSqlWhere_of_predicate E columns hq with ⟨hp, rfl⟩ | ⟨column, p, hp, rfl⟩
    · simp [hsome, hsat, hp, passes_of_none E columns hp]
    · simp [hsome, hsat, hp, passes_of_some E columns hp, and_assoc]

/-- a compiled group accepts the rows that pass all of it -/
theorem group_eq {group : Conditions} {p p' : Row → Bool} (h : group.foldlM (genSqlAnd E columns) p = .ok p')
    (row : Row) : p' row = true ↔ p row = true ∧ ∀ c ∈ group, Passes E columns row c := by
  induction group generalizing p with
  | nil =>
    rw [List.foldlM_nil, Except.pure_eq_ok, Except.ok.injEq] at h
    simp [h]
  | cons c group ih =>
    rw [List.foldlM_cons, Except.bind_eq_ok_iff] at h
    obtain ⟨q, hq, h⟩ := h
    rw [ih h, genSqlAnd_eq E columns hq, List.forall_mem_cons, and_assoc]

/-- **The branches of a filter.** A compiled filter accepts the rows that pass all of its conditions, if there are any
with a predicate or no groups, and those that pass all of a group. -/
theorem sat_iff_branches {f : GenericFilter} {w : Where Row} (h : genSqlQuery E columns f = .ok w) (row : Row) :
    w.sat row = true ↔
      ((f.groups = [] ∨ ∃ c ∈ f.conditions, predicateOf E columns c ≠ none) ∧
        ∀ c ∈ f.conditions, Passes E columns row c) ∨
      ∃ g ∈ f.groups, ∀ c ∈ g, Passes E columns row c := by
  obtain ⟨base, ps, hbase, hps, rfl⟩ := (genSqlQuery_eq_ok_iff E).1 h
  obtain ⟨hsome, hsat⟩ := conditions_eq E columns hbase
  simp only [Option.isSome_none, Bool.false_eq_true, false_or, Where.sat_none, true_and] at hsome hsat
  have hany : (ps.any fun p => p row) = true ↔ ∃ g ∈ f.groups, ∀ c ∈ g, Passes E columns row c := by
    rw [List.any_eq_true]
    constructor
    · rintro ⟨p, hp, hrow⟩
      obtain ⟨g, hg, hgp⟩ := exists_of_mem_mapM hps hp
      exact ⟨g, hg, ((group_eq E columns hgp row).1 hrow).2⟩
    · rintro ⟨g, hg, hmeets⟩
      obtain ⟨p, hp, hgp⟩ := exists_mem_of_mapM hps hg
      exact ⟨p, hp, (group_eq E columns hgp row).2 ⟨rfl, hmeets⟩⟩
  have hnil : ps = [] ↔ f.groups = [] := by
    have hlen := (mapM_eq_ok_iff.1 hps).length_eq
    rw [← List.length_eq_zero_iff, ← hlen, List.length_eq_zero_iff]
    rfl
  rw [← hany, ← hnil]
  cases base with
  | some p =>
    rw [Where.sat_orFilters rfl, Bool.or_eq_true, hsat]
    exact or_congr_left (and_iff_right (Or.inr (hsome.1 rfl))).symm
  | none =>
    have hno : ¬ ∃ c ∈ f.conditions, predicateOf E columns c ≠ none := fun hc => by cases hsome.2 hc
    by_cases hp : ps = []
    · subst hp
      exact iff_of_true rfl (Or.inl ⟨Or.inl rfl, (hsat row).1 rfl⟩)
    · rw [Where.sat_orFilters_none hp]
      simp only [hp, hno, or_self, false_and, false_or]

/-! ## What a clause asks -/

/-- the value of the type that a text stands for; a text stands for no JSON value -/
def readValue (type : ColumnType) (s : String) : Option Value :=
  match type with
  | .text => some (.text s)
  | .json => none
  | .uuid => (E.parseUuid s).map .uuid
  | .timestamptz => (parseDateString E s).toOption.map .time

/-- the order of the database on two values of a type -/
def Value.atMost : Value → Value → Prop
  | .text s, .text t => E.textLe s t = true
  | .uuid a, .uuid b => a ≤ b
  | .time a, .time b => a ≤ b
  | _, _ => False

/-- the value satisfies the clause; NULL satisfies none but `is-null`, and no value a clause that its type gives no sense -/
def GenericClause.Holds (type : ColumnType) (v : Value) : GenericClause → Prop
  | .eq s => readValue E type s = some v
  | .ne s => ∃ w, readValue E type s = some w ∧ v ≠ .null ∧ v ≠ w
  | .gt s => ∃ w, readValue E type s = some w ∧ v ≠ .null ∧ ¬ v.atMost E w
  | .lt s => ∃ w, readValue E type s = some w ∧ v ≠ .null ∧ ¬ w.atMost E v
  | .ge s => ∃ w, readValue E type s = some w ∧ w.atMost E v
  | .le s => ∃ w, readValue E type s = some w ∧ v.atMost E w
  | .like pattern => ∃ s, v = .text s ∧ E.like s pattern = true
  | .notLike pattern => ∃ s, v = .text s ∧ E.like s pattern = false
  | .isIn items => ∃ s ∈ items, readValue E type s = some v
  | .notIn items => v ≠ .null ∧ ∀ s ∈ items, ∃ w, readValue E type s = some w ∧ v ≠ w
  | .isNull => v = .null
  | .isNotNull => v ≠ .null
  | .contains u => ∃ j, v = .json j ∧ j.contains u = true
  | .hasKey key => ∃ j, v = .json j ∧ j.hasKey key = true

/-- the row satisfies the clause: it has the column, with a value that does -/
def Meets (row : Row) (c : String × GenericClause) : Prop :=
  ∃ type column, columns.get c.1 = some (type, column) ∧ c.2.Holds E type (row column)

theorem stringClause_holds {clause : GenericClause} {p : Value → Bool} (hp : stringClause E clause = some p) {v : Value}
    (hv : v = .null ∨ ∃ s, v = .text s) : p v = true ↔ clause.Holds E .text v := by
  rcases hv with rfl | ⟨s, rfl⟩
  · cases clause <;> cases hp <;> simp [onText, valueIsNull, GenericClause.Holds, readValue, Value.atMost]
  · cases clause <;> cases hp <;>
      simp [onText, valueIsNull, GenericClause.Holds, readValue, Value.atMost, @eq_comm _ s, List.forall_mem_ne']

theorem jsonClause_holds {clause : GenericClause} {p : Value → Bool} (hp : jsonClause clause = some p) {v : Value}
    (hv : v = .null ∨ ∃ j, v = .json j) : p v = true ↔ clause.Holds E .json v := by
  rcases hv with rfl | ⟨j, rfl⟩
  all_goals cases clause <;> cases hp <;> simp [onJson, valueIsNull, GenericClause.Holds]

theorem uuidClause_holds {clause : GenericClause} {p : Value → Bool} (hp : uuidClause E clause = some p)
    (hread : ∀ s ∈ clause.dates, (readValue E .uuid s).isSome) {v : Value} (hv : v = .null ∨ ∃ u, v = .uuid u) :
    p v = true ↔ clause.Holds E .uuid v := by
  cases clause with
  | eq s =>
    cases hp
    obtain ⟨u, hu⟩ : ∃ u, E.parseUuid s = some u := by
      simpa [readValue, Option.isSome_iff_exists] using hread s (List.mem_singleton.2 rfl)
    rcases hv with rfl | ⟨u', rfl⟩ <;> simp [onUuid, GenericClause.Holds, readValue, hu, @eq_comm _ u]
  | isNull | isNotNull =>
    cases hp
    rcases hv with rfl | ⟨u', rfl⟩ <;> simp [valueIsNull, GenericClause.Holds]
  | _ => cases hp

theorem timestamptzClause_holds {clause : GenericClause} {p : Value → Bool}
    (hp : timestamptzClause E clause = .ok (some p)) {v : Value} (hv : v = .null ∨ ∃ t, v = .time t) :
    p v = true ↔ clause.Holds E .timestamptz v := by
  -- the dates of a clause that compiles can be read
  have hread : ∀ s ∈ clause.dates, ∃ t, readValue E .timestamptz s = some (.time t) ∧ unwrapDate E s = .ok t := by
    intro s hs
    obtain ⟨t, ht⟩ := (timestamptzClause_isOk E clause).1 ⟨_, hp⟩ s hs
    exact ⟨t, by simp [readValue, ht, Except.toOption], ht⟩
  have hmany : ∀ items : List String, (∀ s ∈ items, s ∈ clause.dates) → ∀ ds, items.mapM (unwrapDate E) = .ok ds →
      ∀ t, t ∈ ds ↔ ∃ s ∈ items, readValue E .timestamptz s = some (.time t) := by
    intro items hitems ds hds t
    constructor
    · intro ht
      obtain ⟨s, hs, hst⟩ := exists_of_mem_mapM hds ht
      obtain ⟨t', hr, ht'⟩ := hread s (hitems s hs)
      rw [hst] at ht'
      cases ht'
      exact ⟨s, hs, hr⟩
    · rintro ⟨s, hs, hr⟩
      obtain ⟨t', hmem, hst⟩ := exists_mem_of_mapM hds hs
      obtain ⟨t'', hr', ht''⟩ := hread s (hitems s hs)
      rw [hst] at ht''
      cases ht''
      rw [hr'] at hr
      cases hr
      exact hmem
  cases clause with
  | eq s | ne s | gt s | lt s | ge s | le s =>
    obtain ⟨t, hr, ht⟩ := hread s (List.mem_singleton.2 rfl)
    simp only [timestamptzClause, ht, Except.ok_bind, Except.pure_eq_ok, Except.ok.injEq, Option.some.injEq] at hp
    subst hp
    rcases hv with rfl | ⟨t', rfl⟩ <;> simp [onTime, GenericClause.Holds, hr, Value.atMost, @eq_comm _ t]
  | isIn items =>
    simp only [timestamptzClause, Except.bind_eq_ok_iff, Except.pure_eq_ok, Except.ok.injEq, Option.some.injEq] at hp
    obtain ⟨ds, hds, rfl⟩ := hp
    rcases hv with rfl | ⟨t', rfl⟩
    · simp only [onTime, GenericClause.Holds, Bool.false_eq_true, false_iff]
      rintro ⟨s, hs, hnull⟩
      obtain ⟨t, hr, -⟩ := hread s hs
      rw [hr] at hnull
      cases hnull
    · simp [onTime, GenericClause.Holds, hmany items (fun _ h => h) ds hds]
  | notIn items =>
    simp only [timestamptzClause, Except.bind_eq_ok_iff, Except.pure_eq_ok, Except.ok.injEq, Option.some.injEq] at hp
    obtain ⟨ds, hds, rfl⟩ := hp
    rcases hv with rfl | ⟨t', rfl⟩
    · simp [onTime, GenericClause.Holds]
    · have hnot : onTime (fun t => decide (t ∉ ds)) (.time t') = true ↔
          ¬ ∃ s ∈ items, readValue E .timestamptz s = some (.time t') := by
        rw [← hmany items (fun _ h => h) ds hds t']
        exact decide_eq_true_iff
      rw [hnot]
      constructor
      · intro hno
        refine ⟨Value.noConfusion, fun s hs => ?_⟩
        obtain ⟨t, hr, -⟩ := hread s hs
        exact ⟨_, hr, fun heq => hno ⟨s, hs, heq ▸ hr⟩⟩
      · rintro ⟨-, hall⟩ ⟨s, hs, hr⟩
        obtain ⟨w, hw, hne⟩ := hall s hs
        rw [hr] at hw
        exact hne (Option.some.inj hw)
  | isNull | isNotNull =>
    simp only [timestamptzClause, Except.pure_eq_ok, Except.ok.injEq, Option.some.injEq] at hp
    subst hp
    rcases hv with rfl | ⟨t', rfl⟩ <;> simp [valueIsNull, GenericClause.Holds]
  | like | notLike | contains | hasKey =>
    simp [timestamptzClause] at hp

/-- **The query asks what the clause asks**, of every value of the type, if the clause fits it. -/
theorem columnClause_holds {type : ColumnType} {clause : GenericClause} {p : Value → Bool}
    (hp : columnClause E type clause = .ok (some p)) (hread : ∀ s ∈ clause.dates, (readValue E type s).isSome) {v : Value}
    (hv : v = .null ∨ v.hasType type = true) : p v = true ↔ clause.Holds E type v := by
  cases type with
  | text => exact stringClause_holds E (Except.ok.inj hp) (by cases v <;> simp_all [Value.hasType])
  | json => exact jsonClause_holds E (Except.ok.inj hp) (by cases v <;> simp_all [Value.hasType])
  | uuid => exact uuidClause_holds E (Except.ok.inj hp) hread (by cases v <;> simp_all [Value.hasType])
  | timestamptz => exact timestamptzClause_holds E hp (by cases v <;> simp_all [Value.hasType])

/-! ## What a conjunction of conditions implies -/

section

variable (nullable : String → Bool)

/-- some column has no value that meets its conditions -/
def Contradictory (conditions : Set (String × GenericClause)) : Prop :=
  ∃ column, ∀ v, columns.HasValue nullable column v →
    ∃ d ∈ conditions, ∃ q, predicateOf E columns d = some (column, q) ∧ q v = false

/-- the clause is on a column, and every value of it that the conditions on this column let through satisfies the clause;
or no row is let through anyway -/
def ImpliedBy (conditions : Set (String × GenericClause)) (c : String × GenericClause) : Prop :=
  Contradictory E columns nullable conditions ∨
    ∃ type column, columns.get c.1 = some (type, column) ∧ ∀ v, columns.HasValue nullable column v →
      (∀ d ∈ conditions, ∀ q, predicateOf E columns d = some (column, q) → q v = true) → c.2.Holds E type v

/-- values for every column make a row -/
theorem exists_row_of_not_contradictory {conditions : Set (String × GenericClause)}
    (h : ¬ Contradictory E columns nullable conditions) :
    ∃ row, TypedRow columns nullable row ∧ ∀ d ∈ conditions, Passes E columns row d := by
  have hvalue : ∀ column, ∃ v, columns.HasValue nullable column v ∧
      ∀ d ∈ conditions, ∀ q, predicateOf E columns d = some (column, q) → q v = true := by
    intro column
    by_contra hno
    refine h ⟨column, fun v hv => ?_⟩
    by_contra hd
    refine hno ⟨v, hv, fun d hmem q hq => ?_⟩
    by_contra hqv
    exact hd ⟨d, hmem, q, hq, by simpa using hqv⟩
  choose row htyped hpasses using hvalue
  exact ⟨row, htyped, fun d hd column q hq => hpasses column d hd q hq⟩

/-- the rows that pass the conditions satisfy a clause exactly if its column sees to it -/
theorem keeps_iff_implied (conditions : Set (String × GenericClause)) (c : String × GenericClause) :
    (∀ row, TypedRow columns nullable row → (∀ d ∈ conditions, Passes E columns row d) → Meets E columns row c) ↔
      ImpliedBy E columns nullable conditions c := by
  constructor
  · intro h
    by_cases hcon : Contradictory E columns nullable conditions
    · exact Or.inl hcon
    obtain ⟨row, htyped, hrow⟩ := exists_row_of_not_contradictory E columns nullable hcon
    obtain ⟨type, column, hcol, -⟩ := h row htyped hrow
    refine Or.inr ⟨type, column, hcol, fun v hv hpasses => ?_⟩
    -- the row with this value in the column passes the conditions as well
    have hrow' : ∀ d ∈ conditions, Passes E columns (Function.update row column v) d := by
      intro d hd name q hq
      by_cases hn : name = column
      · subst hn
        rw [Function.update_self]
        exact hpasses d hd q hq
      · rw [Function.update_of_ne hn]
        exact hrow d hd name q hq
    have htyped' : TypedRow columns nullable (Function.update row column v) := by
      intro name
      by_cases hn : name = column
      · subst hn
        rw [Function.update_self]
        exact hv
      · rw [Function.update_of_ne hn]
        exact htyped name
    obtain ⟨type', column', hcol', hc⟩ := h _ htyped' hrow'
    rw [hcol] at hcol'
    cases hcol'
    rwa [Function.update_self] at hc
  · rintro (⟨column, hcon⟩ | ⟨type, column, hcol, himp⟩) row htyped hrow
    · obtain ⟨d, hd, q, hq, hfalse⟩ := hcon (row column) (htyped column)
      rw [hrow d hd column q hq] at hfalse
      cases hfalse
    · exact ⟨type, column, hcol, himp (row column) (htyped column) fun d hd q hq => hrow d hd column q hq⟩

/-! ## Sequences of calls -/

variable (f : GenericFilter) (calls : Conditions)

/-- every row that the filter selects after the calls satisfies every clause that was added -/
def Keeps : Prop :=
  ∀ w, genSqlQuery E columns (f.wheres calls) = .ok w → ∀ row, TypedRow columns nullable row → w.sat row = true →
    ∀ c ∈ calls, Meets E columns row c

/-- the filter compiles after the calls -/
def Readable : Prop :=
  (∀ d, Left f calls d → ConditionReads E columns d) ∧ ∀ g ∈ f.groups, ∀ c ∈ g, GroupReads E columns c

/-- the last clauses of the keys imply every clause that was added, and each `or` group of the filter does -/
structure Implied : Prop where
  by_conditions : (f.groups = [] ∨ ∃ d, Left f calls d ∧ predicateOf E columns d ≠ none) →
    ∀ c ∈ calls, ImpliedBy E columns nullable { d | Left f calls d } c
  by_groups : ∀ g ∈ f.groups, ∀ c ∈ calls, ImpliedBy E columns nullable { d | d ∈ g } c

theorem readable_iff : Readable E columns f calls ↔ ∃ w, genSqlQuery E columns (f.wheres calls) = .ok w := by
  rw [genSqlQuery_isOk, GenericFilter.groups_wheres]
  exact and_congr_left' (forall_congr' fun d => imp_congr_left (mem_conditions_wheres f calls d).symm)

theorem keeps_iff :
    Keeps E columns nullable f calls ↔ (Readable E columns f calls → Implied E columns nullable f calls) := by
  rw [readable_iff]
  have hbranches : ∀ w, genSqlQuery E columns (f.wheres calls) = .ok w → ∀ row, w.sat row = true ↔
      ((f.groups = [] ∨ ∃ d, Left f calls d ∧ predicateOf E columns d ≠ none) ∧
        ∀ d, Left f calls d → Passes E columns row d) ∨ ∃ g ∈ f.groups, ∀ c ∈ g, Passes E columns row c := by
    intro w hw row
    rw [sat_iff_branches E columns hw row, GenericFilter.groups_wheres]
    simp only [mem_conditions_wheres]
  constructor
  · rintro h ⟨w, hw⟩
    refine ⟨fun hsome c hc => ?_, fun g hg c hc => ?_⟩
    · rw [← keeps_iff_implied]
      intro row htyped hrow
      exact h w hw row htyped ((hbranches w hw row).2 (Or.inl ⟨hsome, hrow⟩)) c hc
    · rw [← keeps_iff_implied]
      intro row htyped hrow
      exact h w hw row htyped ((hbranches w hw row).2 (Or.inr ⟨g, hg, hrow⟩)) c hc
  · intro h w hw row htyped hsat c hc
    have hi := h ⟨w, hw⟩
    rcases (hbranches w hw row).1 hsat with ⟨hsome, hrow⟩ | ⟨g, hg, hrow⟩
    · exact (keeps_iff_implied E columns nullable _ c).2 (hi.by_conditions hsome c hc) row htyped hrow
    · exact (keeps_iff_implied E columns nullable _ c).2 (hi.by_groups g hg c hc) row htyped hrow

/-- clauses on different keys that fit their columns are all kept by a new filter -/
theorem keeps_of_distinct (hkeys : (calls.map Prod.fst).Nodup) (hfits : ∀ c ∈ calls, ∃ type column,
      columns.get c.1 = some (type, column) ∧ columns.typeOf column = some type ∧ type.supports c.2 = true ∧
        ∀ s ∈ c.2.dates, (readValue E type s).isSome) :
    Keeps E columns nullable GenericFilter.new calls := by
  rw [keeps_iff]
  rintro ⟨hreads, -⟩
  refine ⟨fun _ c hc => .inr ?_, nofun⟩
  obtain ⟨type, column, hcol, htype, hs, hread⟩ := hfits c hc
  refine ⟨type, column, hcol, fun v hv hpasses => ?_⟩
  -- no other call is on the key
  have hleft : Left GenericFilter.new calls c := by
    have hlast : lastOn calls c.1 = some c.2 := by
      unfold lastOn
      cases hf : calls.reverse.find? fun d => d.1 = c.1 with
      | none => simpa using List.find?_eq_none.1 hf c (List.mem_reverse.2 hc)
      | some d =>
        have hkey : d.1 = c.1 := by simpa using List.find?_some hf
        have hd : d ∈ calls := List.mem_reverse.1 (List.mem_of_find?_eq_some hf)
        rw [List.inj_on_of_nodup_map hkeys hd hc hkey]
        rfl
    simp only [Left, hlast]
  obtain ⟨r, hr⟩ := (columnClause_isOk E type c.2).2 (hreads c hleft type column hcol)
  cases r with
  | none =>
    rw [(columnClause_none E type c.2).1 hr] at hs
    cases hs
  | some p =>
    have hp : predicateOf E columns c = some (column, p) := by simp [predicateOf, hcol, hr]
    have hv' : v = .null ∨ v.hasType type = true := (hv type htype).elim .inr fun h => .inl h.2
    exact (columnClause_holds E hr hread hv').1 (hpasses c hleft p hp)

end

end

/-! ## `nanocl ps` -/

/-- the options of `nanocl ps` -/
structure ProcessFilter where
  nsp : Option String
  kind : Option String
  all : Bool

/-- `{"State": {"Status": "running"}}` -/
def runningData : Json := Json.path ["State", "Status"] "running"

/-- `{"Config": {"Labels": {"io.nanocl.n": namespace}}}` -/
def namespaceData (nsp : String) : Json := Json.path ["Config", "Labels", "io.nanocl.n"] nsp

/-- `From<ProcessFilter> for GenericFilter` -/
def ProcessFilter.toGeneric (filter : ProcessFilter) : GenericFilter :=
  let genFilter := GenericFilter.new
  let genFilter := if !filter.all then genFilter.where "data" (.contains runningData) else genFilter
  let genFilter := match filter.kind with
    | some kind => genFilter.where "kind" (.eq kind)
    | none => genFilter
  match filter.nsp with
  | some nsp => genFilter.where "data" (.contains (namespaceData nsp))
  | none => genFilter

/-- the data of the row have the text at the path -/
def HasText (row : Row) (path : List String) (text : String) : Prop :=
  ∃ data, row "processes.data" = .json data ∧ data.valueAt path = some (.str text)

/-- the row is one of those that the options ask for -/
structure ProcessFilter.Asks (filter : ProcessFilter) (row : Row) : Prop where
  running : filter.all = false → HasText row ["State", "Status"] "running"
  kind : ∀ kind ∈ filter.kind, row "processes.kind" = .text kind
  nsp : ∀ nsp ∈ filter.nsp, HasText row ["Config", "Labels", "io.nanocl.n"] nsp

/-- the filter of the options selects the rows they ask for, and no others -/
def ProcessFilter.Selects (E : Externals) (filter : ProcessFilter) : Prop :=
  ∃ w, genSqlQuery E ProcessDb.columns filter.toGeneric = .ok w ∧
    ∀ row, TypedRow ProcessDb.columns ProcessDb.nullable row → (w.sat row = true ↔ filter.Asks row)

section

variable (E : Externals)

theorem passes_data (row : Row) (key : String) (path : List String) (text : String) :
    Passes E ProcessDb.columns row ("data", .contains (Json.path (key :: path) text)) ↔
      HasText row (key :: path) text := by
  have hp : predicateOf E ProcessDb.columns ("data", .contains (Json.path (key :: path) text)) =
      some ("processes.data", onJson fun j => j.contains (Json.path (key :: path) text)) := rfl
  rw [passes_of_some E _ hp]
  unfold HasText onJson
  cases row "processes.data" with
  | json j => simpa using Json.contains_path j key path text
  | null | text | uuid | time => simp

/-- and so does what the clause asks -/
theorem hasText_of_meets {row : Row} {key : String} {path : List String} {text : String}
    (h : Meets E ProcessDb.columns row ("data", .contains (Json.path (key :: path) text))) :
    HasText row (key :: path) text := by
  obtain ⟨type, column, hcol, j, hj, hcontains⟩ := h
  rw [ProcessDb.columns_data] at hcol
  cases hcol
  exact ⟨j, hj, (Json.contains_path j key path text).1 hcontains⟩

theorem passes_kind (row : Row) (kind : String) :
    Passes E ProcessDb.columns row ("kind", .eq kind) ↔ row "processes.kind" = .text kind := by
  have hp : predicateOf E ProcessDb.columns ("kind", .eq kind) =
      some ("processes.kind", onText fun s => decide (s = kind)) := rfl
  rw [passes_of_some E _ hp]
  unfold onText
  cases row "processes.kind" <;> simp

/-- the conditions of the options, as their calls leave them -/
def ProcessFilter.calls (filter : ProcessFilter) : Conditions :=
  (if filter.all then [] else [("data", .contains runningData)]) ++
    (filter.kind.toList.map fun kind => ("kind", .eq kind)) ++
    filter.nsp.toList.map fun nsp => ("data", .contains (namespaceData nsp))

theorem ProcessFilter.toGeneric_eq (filter : ProcessFilter) :
    filter.toGeneric = GenericFilter.new.wheres filter.calls := by
  obtain ⟨nsp, kind, all⟩ := filter
  cases all <;> cases kind <;> cases nsp <;> rfl

/-- the options compile, and their filter accepts the rows that meet what is left of their calls -/
theorem ProcessFilter.compiled (filter : ProcessFilter) :
    ∃ w, genSqlQuery E ProcessDb.columns filter.toGeneric = .ok w ∧ ∀ row, w.sat row = true ↔
      ∀ c ∈ filter.toGeneric.conditions, Passes E ProcessDb.columns row c := by
  have hgroups : filter.toGeneric.groups = [] := by rw [filter.toGeneric_eq, GenericFilter.groups_wheres]; rfl
  have hreads : ∀ c ∈ filter.toGeneric.conditions, ConditionReads E ProcessDb.columns c := by
    -- none of the columns is an instant
    have hcalls : ∀ c ∈ filter.calls, ConditionReads E ProcessDb.columns c := by
      intro c hc type column ht htime
      subst htime
      simp only [ProcessFilter.calls, List.mem_append, List.mem_map, Option.mem_toList] at hc
      rcases hc with (hc | ⟨kind, -, rfl⟩) | ⟨nsp, -, rfl⟩
      · split_ifs at hc
        · cases hc
        · rw [List.mem_singleton.1 hc] at ht
          cases ht
      · cases ht
      · cases ht
    intro c hc
    rw [filter.toGeneric_eq, mem_conditions_wheres] at hc
    unfold Left at hc
    cases hl : lastOn filter.calls c.1 with
    | none => rw [hl] at hc; cases hc
    | some clause =>
      rw [hl] at hc
      obtain ⟨d, hd, hclause⟩ := Option.map_eq_some_iff.1 hl
      have hkey : d.1 = c.1 := by simpa using List.find?_some hd
      have hmem := hcalls d (List.mem_reverse.1 (List.mem_of_find?_eq_some hd))
      have hdc : d = c := Prod.ext hkey (hclause.trans hc.symm)
      exact hdc ▸ hmem
  obtain ⟨w, hw⟩ := (genSqlQuery_isOk E ProcessDb.columns filter.toGeneric).2
    ⟨hreads, by rw [hgroups]; exact fun g hg => nomatch hg⟩
  refine ⟨w, hw, fun row => ?_⟩
  rw [sat_iff_branches E _ hw row, hgroups]
  simp

/-- with a namespace the call for the running processes is overwritten -/
theorem ProcessFilter.passes_iff (filter : ProcessFilter) (row : Row) :
    (∀ c ∈ filter.toGeneric.conditions, Passes E ProcessDb.columns row c) ↔
      (filter.all = false ∧ filter.nsp = none → HasText row ["State", "Status"] "running") ∧
      (∀ kind ∈ filter.kind, row "processes.kind" = .text kind) ∧
      ∀ nsp ∈ filter.nsp, HasText row ["Config", "Labels", "io.nanocl.n"] nsp := by
  obtain ⟨nsp, kind, all⟩ := filter
  cases all <;> cases kind <;> cases nsp <;>
    simp [ProcessFilter.toGeneric, GenericFilter.conditions, GenericFilter.where, GenericFilter.new, Conditions.insert,
      runningData, namespaceData, passes_data, passes_kind, and_comm]

/-- a process that has the label of the namespace and the kind, and does not run -/
def exitedRow (filter : ProcessFilter) (nsp : String) : Row
  | "processes.data" => .json (namespaceData nsp)
  | "processes.kind" => .text (filter.kind.getD "")
  | "processes.created_at" => .time 0
  | _ => .text ""

theorem typedRow_exitedRow (filter : ProcessFilter) (nsp : String) :
    TypedRow ProcessDb.columns ProcessDb.nullable (exitedRow filter nsp) :=
  typedRow_of_forall (by simp [ProcessDb.columns, exitedRow, Value.hasType]) _

theorem ProcessFilter.selects_iff (filter : ProcessFilter) :
    filter.Selects E ↔ filter.all = true ∨ filter.nsp = none := by
  obtain ⟨w, hw, hsat⟩ := filter.compiled E
  constructor
  · rintro ⟨w', hw', hselects⟩
    rw [hw] at hw'
    cases hw'
    by_contra hno
    rw [not_or, Bool.not_eq_true] at hno
    obtain ⟨nsp, hnsp⟩ := Option.ne_none_iff_exists'.1 hno.2
    -- the exited process of the namespace is selected
    have hrow : w.sat (exitedRow filter nsp) = true := by
      rw [hsat, filter.passes_iff E]
      refine ⟨fun h => absurd h.2 hno.2, fun kind hkind => ?_, fun n hn => ?_⟩
      · simp [exitedRow, Option.mem_def.1 hkind]
      · rw [hnsp, Option.mem_some_iff] at hn
        subst hn
        exact ⟨namespaceData nsp, rfl, (Json.contains_path _ _ _ _).1 (by simp [namespaceData, Json.path,
          Json.contains, Json.deepContains, Json.fieldsIn, Json.field])⟩
    obtain ⟨data, hdata, hstatus⟩ := ((hselects _ (typedRow_exitedRow filter nsp)).1 hrow).running hno.1
    cases hdata
    simp [namespaceData, Json.path, Json.valueAt, Json.field] at hstatus
  · intro h
    refine ⟨w, hw, fun row _ => ?_⟩
    rw [hsat, filter.passes_iff E]
    constructor
    · rintro ⟨hrunning, hkind, hnsp⟩
      exact ⟨fun ha => hrunning ⟨ha, h.resolve_left (by simp [ha])⟩, hkind, hnsp⟩
    · rintro ⟨hrunning, hkind, hnsp⟩
      exact ⟨fun ha => hrunning ha.1, hkind, hnsp⟩

/-- **Filters keep what was added.** For every table, filter and sequence of calls the rows that are selected satisfy
every clause that was added exactly if, where the filter compiles, the last clauses of the keys and each `or` group imply
all of them; and for all options `nanocl ps` lists exactly what was asked for if and only if it asks for all processes or
not for a namespace. -/
theorem filter_keeps_iff :
    (∀ (columns : Columns) (nullable : String → Bool) (f : GenericFilter) (calls : Conditions),
      Keeps E columns nullable f calls ↔ (Readable E columns f calls → Implied E columns nullable f calls)) ∧
    ∀ filter : ProcessFilter, filter.Selects E ↔ filter.all = true ∨ filter.nsp = none :=
  ⟨keeps_iff E, ProcessFilter.selects_iff E⟩

end

/-! The processes of a namespace that run. -/

def runningInProd : ProcessFilter where
  nsp := some "prod"
  kind := none
  all := false

/-- the two calls on `data`: the row of an exited process is selected -/
theorem exited_listed :
    (∃ w, genSqlQuery plainExternals ProcessDb.columns runningInProd.toGeneric = .ok w ∧
      w.sat (exitedRow runningInProd "prod") = true) ∧
    ¬ HasText (exitedRow runningInProd "prod") ["State", "Status"] "running" ∧
    ¬ Keeps plainExternals ProcessDb.columns ProcessDb.nullable GenericFilter.new runningInProd.calls ∧
    ¬ runningInProd.Selects plainExternals := by
  obtain ⟨w, hw, hsat⟩ := runningInProd.compiled plainExternals
  have hrow : w.sat (exitedRow runningInProd "prod") = true := by
    rw [hsat, runningInProd.passes_iff plainExternals]
    refine ⟨fun h => ?_, fun kind hkind => ?_, fun n hn => ?_⟩
    · cases h.2
    · cases hkind
    cases hn
    exact ⟨namespaceData "prod", rfl, rfl⟩
  have hexited : ¬ HasText (exitedRow runningInProd "prod") ["State", "Status"] "running" := by
    rintro ⟨data, hdata, hstatus⟩
    cases hdata
    simp [namespaceData, Json.path, Json.valueAt, Json.field] at hstatus
  refine ⟨⟨w, hw, hrow⟩, hexited, fun h => hexited ?_, fun hselects => hexited ?_⟩
  · rw [runningInProd.toGeneric_eq] at hw
    exact hasText_of_meets plainExternals
      (h w hw _ (typedRow_exitedRow _ _) hrow ("data", .contains runningData) (List.mem_cons_self ..))
  · obtain ⟨w', hw', h⟩ := hselects
    rw [hw] at hw'
    cases hw'
    exact ((h _ (typedRow_exitedRow _ _)).1 hrow).running rfl

end Nanocl
