/-
The process rows of the daemon (`bin/nanocld/src/repositories/process.rs`, `models/process.rs`): one row for each
container of a job, a cargo or a VM, with the data of its last inspection.

- `readByKindKey_none`, `readByKindKey_label`: what the one read that every group operation goes through returns. It is
  compiled by the filter compiler, newest row first, and never has more than 100 rows.
- `newest100_perm`, `exists_notMem_newest100`: up to 100 rows it returns each of them once, beyond that it misses some.
-/
import Nanocl.Store.Filter

namespace Nanocl

open Nanocl.Lib

inductive ProcessKind where
  | vm | job | cargo
deriving DecidableEq, Repr

/-- `Display` of `ProcessKind` -/
def ProcessKind.display : ProcessKind → String
  | .vm => "vm"
  | .job => "job"
  | .cargo => "cargo"

/-- a docker container id -/
abbrev ContainerId := ℕ

abbrev Labels := List (String × String)

def Labels.has (l : Labels) (key value : String) : Bool :=
  (l.find? fun p => p.1 = key).map Prod.snd = some value

/-- the fields of docker's container state that the daemon reads -/
structure ContainerState where
  running : Option Bool
  restarting : Option Bool
  finishedAt : Option String
  exitCode : Option ℤ
  error : Option String
deriving DecidableEq, Repr

/-- `ContainerState::default` -/
def ContainerState.default : ContainerState := ⟨none, none, none, none, none⟩

/-- the fields of docker's container inspection that the daemon reads -/
structure ContainerInspect where
  id : Option ContainerId
  state : Option ContainerState
  labels : Labels
deriving DecidableEq, Repr

/-- the labels of a container where the inspection has them -/
def ContainerInspect.toJson (c : ContainerInspect) : Json :=
  .obj [("Config", .obj [("Labels", .obj (c.labels.map fun p => (p.1, .str p.2)))])]

structure ProcessDb where
  key : ContainerId
  name : String
  kind : ProcessKind
  kindKey : String
  nodeName : String
  /-- microseconds since the epoch -/
  createdAt : ℤ
  data : ContainerInspect
  /-- a row is only ever written with the inspection of its own container -/
  data_id : data.id = some key
deriving DecidableEq

namespace ProcessDb

/-- `get_columns` -/
def columns : Columns :=
  [("key", .text, "processes.key"), ("name", .text, "processes.name"), ("kind", .text, "processes.kind"),
   ("node_name", .text, "processes.node_name"), ("kind_key", .text, "processes.kind_key"),
   ("data", .json, "processes.data"), ("created_at", .timestamptz, "processes.created_at")]

def toRow (p : ProcessDb) : Row
  | "processes.key" => .text (toString p.key)
  | "processes.name" => .text p.name
  | "processes.kind" => .text p.kind.display
  | "processes.node_name" => .text p.nodeName
  | "processes.kind_key" => .text p.kindKey
  | "processes.data" => .json p.data.toJson
  | "processes.created_at" => .time p.createdAt
  | _ => .null

/-- `created_at.desc()` -/
def newer (a b : ProcessDb) : Bool := b.createdAt ≤ a.createdAt

/-- `read_by_kind_key`; the rows are decoded already, so `transform` has nothing left to do -/
def readByKindKey (E : Externals) (kindKey : String) (filter : Option GenericFilter) (processes : List ProcessDb) :
    Except QueryError (List ProcessDb) := do
  let filter := (filter.getD GenericFilter.new).where "kind_key" (.eq kindKey)
  let query ← genReadQuery E columns toRow newer filter
  return query.run processes

/-- the filter for the processes whose container has the label -/
def labelFilter (label : String) : GenericFilter :=
  GenericFilter.new.where "data"
    (.contains (.obj [("Config", .obj [("Labels", .obj [(label, .str "true")])])]))

def notInitC : String := "io.nanocl.not-init-c"

def initC : String := "io.nanocl.init-c"

/-- the container of the row has the label set to `true` -/
def hasLabel (label : String) (p : ProcessDb) : Bool := p.data.labels.has label "true"

/-! ## What a read returns -/

/-- newest row first, and no more than 100 rows -/
def newest100 (processes : List ProcessDb) : List ProcessDb :=
  (processes.insertionSort fun a b => newer a b = true).take 100

/-- the label filter accepts exactly the rows whose container has the label -/
theorem contains_label (c : ContainerInspect) (label : String) :
    c.toJson.contains (.obj [("Config", .obj [("Labels", .obj [(label, .str "true")])])]) =
      c.labels.has label "true" := by
  cases hf : (c.labels.find? fun p => p.1 = label) <;>
    simp [ContainerInspect.toJson, Json.contains, Json.deepContains, Json.fieldsIn, Json.field, Labels.has, hf,
      beq_eq_decide]

@[simp] theorem columns_kindKey : columns.get "kind_key" = some (.text, "processes.kind_key") := by decide

@[simp] theorem columns_data : columns.get "data" = some (.json, "processes.data") := by decide

/-- the query of a read by kind key alone -/
theorem genReadQuery_none (E : Externals) (kindKey : String) :
    genReadQuery E columns toRow newer (GenericFilter.new.where "kind_key" (.eq kindKey)) =
      .ok { clause := some fun p => p.kindKey = kindKey, le := newer, limit := some 100, offset := 0 } := by
  simp [genReadQuery, readOrder, genSqlQuery, GenericFilter.where, GenericFilter.new, Conditions.insert, genSqlWhere,
    genSqlWhere4string, filterBy, stringClause, Where.filter, onText, toRow]

/-- the query of a read by kind key and label -/
theorem genReadQuery_label (E : Externals) (kindKey label : String) :
    genReadQuery E columns toRow newer ((labelFilter label).where "kind_key" (.eq kindKey)) =
      .ok { clause := some fun p => p.data.toJson.contains
                (.obj [("Config", .obj [("Labels", .obj [(label, .str "true")])])]) && decide (p.kindKey = kindKey),
            le := newer, limit := some 100, offset := 0 } := by
  simp [genReadQuery, readOrder, genSqlQuery, labelFilter, GenericFilter.where, GenericFilter.new, Conditions.insert,
    genSqlWhere, genSqlWhere4string, genSqlWhere4json, filterBy, stringClause, jsonClause, Where.filter, onText, onJson,
    toRow]

/-- a read of all the processes of an object -/
theorem readByKindKey_none (E : Externals) (kindKey : String) (processes : List ProcessDb) :
    readByKindKey E kindKey none processes = .ok (newest100 (processes.filter fun p => p.kindKey = kindKey)) := by
  simp only [readByKindKey, Option.getD_none, genReadQuery_none]
  rfl

/-- a read of the processes of an object whose container has a label -/
theorem readByKindKey_label (E : Externals) (kindKey label : String) (processes : List ProcessDb) :
    readByKindKey E kindKey (some (labelFilter label)) processes =
      .ok (newest100 (processes.filter fun p => p.hasLabel label && decide (p.kindKey = kindKey))) := by
  simp only [readByKindKey, Option.getD_some, genReadQuery_label, contains_label]
  rfl

/-- rows that are newer than all the others come first -/
theorem newest100_split {l : List ProcessDb} {c : ProcessDb → Bool}
    (h : ∀ p ∈ l, ∀ q ∈ l, c p = true → c q = false → q.createdAt < p.createdAt) :
    newest100 l = (((l.filter c).insertionSort fun a b => newer a b = true) ++
      (l.filter fun p => !c p).insertionSort fun a b => newer a b = true).take 100 := by
  rw [newest100, insertionSort_split fun p hp q hq hcp hcq => ?_]
  have := h p hp q hq hcp hcq
  simp only [newer, decide_eq_true_eq]
  omega

theorem newest100_sublist (l : List ProcessDb) :
    (newest100 l).Sublist (l.insertionSort fun a b => newer a b = true) := List.take_sublist _ _

theorem mem_of_mem_newest100 {l : List ProcessDb} {p : ProcessDb} (h : p ∈ newest100 l) : p ∈ l :=
  (List.perm_insertionSort _ l).mem_iff.1 (List.mem_of_mem_take h)

@[simp] theorem length_newest100 (l : List ProcessDb) : (newest100 l).length = min 100 l.length := by
  simp [newest100]

/-- with at most 100 rows a read returns each of them once -/
theorem newest100_perm {l : List ProcessDb} (h : l.length ≤ 100) : (newest100 l).Perm l := by
  unfold newest100
  rw [List.take_of_length_le (by simpa using h)]
  exact List.perm_insertionSort _ l

theorem nodup_newest100 {α : Type} {f : ProcessDb → α} {l : List ProcessDb} (h : (l.map f).Nodup) :
    ((newest100 l).map f).Nodup :=
  ((newest100_sublist l).map f).nodup (((List.perm_insertionSort _ l).map f).nodup_iff.2 h)

/-- with more than 100 rows a read misses one of them -/
theorem exists_notMem_newest100 {l : List ProcessDb} (hn : l.Nodup) (h : 100 < l.length) :
    ∃ p ∈ l, p ∉ newest100 l := by
  by_contra hall
  push Not at hall
  have := (List.subperm_of_subset hn hall).length_le
  simp only [length_newest100] at this
  omega

theorem newest100_eq_nil {l : List ProcessDb} : newest100 l = [] ↔ l = [] := by
  rw [← List.length_eq_zero_iff, length_newest100, ← List.length_eq_zero_iff]
  omega

end ProcessDb

/-! ## Counting statuses -/

/-- what one instance adds to the failed, the successful and the running instances; `none` is the panic of
`finished_at.unwrap()` -/
def countInstance (instance_ : ContainerInspect) : Option (ℕ × ℕ × ℕ) :=
  let state := instance_.state.getD .default
  if state.restarting.getD false then some (1, 0, 0)
  else if state.running.getD false then some (0, 0, 1)
  else
    match state.finishedAt with
    | none => none
    | some finishedAt =>
      if finishedAt = "0001-01-01T00:00:00Z" then some (0, 0, 1)
      else
        let failedBy := match state.error with
          | some error => if error = "" then 0 else 1
          | none => 0
        match state.exitCode with
        | some exitCode => if exitCode = 0 then some (failedBy, 1, 0) else some (1 + failedBy, 0, 0)
        | none => some (failedBy, 0, 0)

/-- `count_status`: total, failed, successful and running instances -/
def countStatus (instances : List ProcessDb) : Option (ℕ × ℕ × ℕ × ℕ) := do
  let (failed, success, running) ← instances.foldlM (fun (n : ℕ × ℕ × ℕ) i => do
    let (f, s, r) ← countInstance i.data
    return (n.1 + f, n.2.1 + s, n.2.2 + r)) (0, 0, 0)
  return (instances.length, failed, success, running)

end Nanocl
