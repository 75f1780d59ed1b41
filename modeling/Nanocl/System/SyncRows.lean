/-
The process table after a restart (`utils/system.rs::sync_processes`, `sync_process`). The daemon may have missed anything
while it was down: containers that came, changed or went. The pass over docker's list writes a row for each container of
an object and deletes the rows of this node whose container is gone; a container that it does not get past ends it, and
then nothing is deleted.

- `TableShows`: the rows of this node are docker's containers, each with the name, the object and the inspection it has.
- `syncContainers_rows`: the rows after the loop are those of `sync_process` on each container it arrives at.
- `table_shows_iff`: whatever the table was, it is right after the pass exactly if the pass can put right each container
  it arrives at, and gets past all of them, or what it does not get to was right already.
- `stale_name_kept`: a row whose data is right keeps a name that is not.
- `sync_again`: the next pass over the same containers changes no row.
-/
import Nanocl.System.Sync

namespace Nanocl.Sync

open Nanocl.Lib Nanocl.Status

variable {κ η ν : Type} [DecidableEq κ] [DecidableEq η] (E : Env κ η)

/-! ## Rows -/

/-- the name that a row takes from an inspection, without docker's slash -/
def nameOf (container : ContainerInspectResponse κ η) : String :=
  String.ofList ((container.name.getD "").toList.filter (· ≠ '/'))

abbrev idOf (c : ContainerSummary) : String := c.id.getD ""

/-- the row of a container -/
def rowOf (rows : List (ProcessDb κ η)) (id : String) : Option (ProcessDb κ η) := rows.find? fun p => p.key = id

/-- the rows after `sync_process`, which are as they were where it fails -/
def recordRow (key : String) (kind : ProcessKind) (id : String) (container : ContainerInspectResponse κ η)
    (rows : List (ProcessDb κ η)) : List (ProcessDb κ η) :=
  match rowOf rows id with
  | some current =>
    if current.data = container then rows
    else rows.map fun p => if p.key = id then { p with name := nameOf container, data := container } else p
  | none =>
    match E.parseCreated (container.created.getD "") with
    | none => rows
    | some createdAt => rows ++ [⟨id, nameOf container, kind, key, E.hostname, createdAt, container⟩]

/-- the row of the container afterwards -/
def recorded (key : String) (kind : ProcessKind) (id : String) (container : ContainerInspectResponse κ η) :
    Option (ProcessDb κ η) → Option (ProcessDb κ η)
  | some current =>
    some (if current.data = container then current else { current with name := nameOf container, data := container })
  | none => (E.parseCreated (container.created.getD "")).map fun createdAt =>
      ⟨id, nameOf container, kind, key, E.hostname, createdAt, container⟩

/-- the rows once the pass has arrived at a container -/
def rowsAfter (rows : List (ProcessDb κ η)) (c : ContainerSummary) : List (ProcessDb κ η) :=
  match processKey c, E.inspect (idOf c) with
  | some (kind, key), .ok container => recordRow E key kind (idOf c) container rows
  | _, _ => rows

/-- the containers that the pass arrives at: those it gets past, and the one it ends at -/
def arrived (s : Store κ η ν) : List ContainerSummary → List ContainerSummary
  | [] => []
  | c :: l => if syncable E s c then c :: arrived s l else [c]

/-- the row of the container is what docker has of it -/
def Shown (rows : List (ProcessDb κ η)) (c : ContainerSummary) : Prop :=
  ∀ kind key, processKey c = some (kind, key) → ∃ container createdAt, E.inspect (idOf c) = .ok container ∧
    rowOf rows (idOf c) = some ⟨idOf c, nameOf container, kind, key, E.hostname, createdAt, container⟩

/-- each row of this node has its container in the list -/
def NoZombie (l : List ContainerSummary) (rows : List (ProcessDb κ η)) : Prop :=
  ∀ p ∈ rows, p.nodeName = E.hostname → ∃ c ∈ l, (processKey c).isSome ∧ idOf c = p.key

structure TableShows (l : List ContainerSummary) (rows : List (ProcessDb κ η)) : Prop where
  shown : ∀ c ∈ l, Shown E rows c
  noZombie : NoZombie E l rows

/-- the pass can put the row of the container right: it adds the row, or the row is one of this node and of this object,
and has its name if its data is up to date -/
def Mendable (rows : List (ProcessDb κ η)) (c : ContainerSummary) : Prop :=
  ∀ kind key, processKey c = some (kind, key) → ∃ container, E.inspect (idOf c) = .ok container ∧
    match rowOf rows (idOf c) with
    | none => (E.parseCreated (container.created.getD "")).isSome
    | some p =>
      p.kind = kind ∧ p.kindKey = key ∧ p.nodeName = E.hostname ∧ (p.data = container → p.name = nameOf container)

variable {E}

section Rows

variable {key id : String} {kind : ProcessKind} {container : ContainerInspectResponse κ η} {rows : List (ProcessDb κ η)}

omit [DecidableEq κ] [DecidableEq η] in
theorem key_of_rowOf {p : ProcessDb κ η} (h : rowOf rows id = some p) : p.key = id := by
  simpa using List.find?_some h

omit [DecidableEq κ] [DecidableEq η] in
theorem rowOf_map {f : ProcessDb κ η → ProcessDb κ η} (hf : ∀ p, (f p).key = p.key) :
    rowOf (rows.map f) id = (rowOf rows id).map f := by
  unfold rowOf
  rw [List.find?_map]
  congr 2
  funext p
  simp [hf]

/-- the other rows are left alone -/
theorem rowOf_recordRow_of_ne {j : String} (hj : j ≠ id) :
    rowOf (recordRow E key kind id container rows) j = rowOf rows j := by
  unfold recordRow
  cases hid : rowOf rows id with
  | some current =>
    dsimp only
    split_ifs
    · rfl
    · rw [rowOf_map fun p => by split_ifs <;> rfl]
      cases hrow : rowOf rows j with
      | none => rfl
      | some p =>
        have hp : p.key ≠ id := key_of_rowOf hrow ▸ hj
        simp [hp]
  | none =>
    dsimp only
    cases E.parseCreated (container.created.getD "") with
    | none => rfl
    | some createdAt =>
      have hne : ¬ id = j := fun h => hj h.symm
      simp [rowOf, List.find?_append, hne]

/-- the row of the container itself -/
theorem rowOf_recordRow_self :
    rowOf (recordRow E key kind id container rows) id = recorded E key kind id container (rowOf rows id) := by
  unfold recordRow recorded
  cases hid : rowOf rows id with
  | some current =>
    dsimp only
    split_ifs
    · exact hid
    · rw [rowOf_map fun p => by split_ifs <;> rfl, hid]
      simp [key_of_rowOf hid]
  | none =>
    dsimp only
    cases E.parseCreated (container.created.getD "") with
    | none => exact hid
    | some createdAt =>
      have hid' : rows.find? (fun p => decide (p.key = id)) = none := hid
      simp [rowOf, List.find?_append, hid']

/-- the pass makes the row of the container right, or leaves it wrong -/
theorem shown_recordRow_iff {c : ContainerSummary} (hkey : processKey c = some (kind, key))
    (hin : E.inspect (idOf c) = .ok container) :
    Shown E (recordRow E key kind (idOf c) container rows) c ↔ Mendable E rows c := by
  unfold Shown Mendable
  constructor
  · intro h kind' key' hkey'
    obtain ⟨rfl, rfl⟩ := Prod.mk.inj (Option.some.inj (hkey.symm.trans hkey'))
    obtain ⟨container', createdAt, hin', hrow⟩ := h kind key hkey
    obtain rfl : container = container' := Except.ok.inj (hin.symm.trans hin')
    refine ⟨container, hin, ?_⟩
    rw [rowOf_recordRow_self] at hrow
    cases hid : rowOf rows (idOf c) with
    | none =>
      rw [hid] at hrow
      obtain ⟨createdAt', hcreated, -⟩ := Option.map_eq_some_iff.1 hrow
      exact Option.isSome_iff_exists.2 ⟨createdAt', hcreated⟩
    | some p =>
      rw [hid] at hrow
      have hp := Option.some.inj hrow
      by_cases hdata : p.data = container
      · rw [if_pos hdata] at hp
        subst hp
        exact ⟨rfl, rfl, rfl, fun _ => rfl⟩
      · rw [if_neg hdata] at hp
        refine ⟨?_, ?_, ?_, fun hdata' => absurd hdata' hdata⟩
        · exact congrArg ProcessDb.kind hp
        · exact congrArg ProcessDb.kindKey hp
        · exact congrArg ProcessDb.nodeName hp
  · intro h kind' key' hkey'
    obtain ⟨rfl, rfl⟩ := Prod.mk.inj (Option.some.inj (hkey.symm.trans hkey'))
    obtain ⟨container', hin', hrow⟩ := h kind key hkey
    obtain rfl : container = container' := Except.ok.inj (hin.symm.trans hin')
    cases hid : rowOf rows (idOf c) with
    | none =>
      rw [hid] at hrow
      obtain ⟨createdAt, hcreated⟩ := Option.isSome_iff_exists.1 hrow
      refine ⟨container, createdAt, hin, ?_⟩
      rw [rowOf_recordRow_self, hid, recorded, hcreated]
      rfl
    | some p =>
      rw [hid] at hrow
      obtain ⟨hkind, hkindKey, hnode, hname⟩ := hrow
      have hid' : p.key = idOf c := key_of_rowOf hid
      refine ⟨container, p.createdAt, hin, ?_⟩
      rw [rowOf_recordRow_self, hid, recorded]
      congr 1
      by_cases hdata : p.data = container
      · rw [if_pos hdata, ← hid', ← hname hdata, ← hkind, ← hkindKey, ← hnode, ← hdata]
      · rw [if_neg hdata, ← hid', ← hkind, ← hkindKey, ← hnode]

/-- a row stays one of its key and its node, and a row that comes is that of the container -/
theorem mem_recordRow {p : ProcessDb κ η} (h : p ∈ recordRow E key kind id container rows) :
    p.key = id ∨ ∃ q ∈ rows, q.key = p.key ∧ q.nodeName = p.nodeName := by
  unfold recordRow at h
  cases hid : rowOf rows id with
  | some current =>
    rw [hid] at h
    dsimp only at h
    split_ifs at h
    · exact .inr ⟨p, h, rfl, rfl⟩
    · obtain ⟨q, hq, rfl⟩ := List.mem_map.1 h
      refine .inr ⟨q, hq, ?_, ?_⟩
      · split_ifs <;> rfl
      · split_ifs <;> rfl
  | none =>
    rw [hid] at h
    dsimp only at h
    cases hcreated : E.parseCreated (container.created.getD "") with
    | none =>
      rw [hcreated] at h
      exact .inr ⟨p, h, rfl, rfl⟩
    | some createdAt =>
      rw [hcreated] at h
      rcases List.mem_append.1 h with hp | hp
      · exact .inr ⟨p, hp, rfl, rfl⟩
      · obtain rfl := List.mem_singleton.1 hp
        exact .inl rfl

theorem exists_mem_recordRow (E : Env κ η) (key : String) (kind : ProcessKind) (id : String)
    (container : ContainerInspectResponse κ η) {q : ProcessDb κ η} (h : q ∈ rows) :
    ∃ p ∈ recordRow E key kind id container rows, p.key = q.key ∧ p.nodeName = q.nodeName := by
  unfold recordRow
  cases rowOf rows id with
  | some current =>
    dsimp only
    split_ifs
    · exact ⟨q, h, rfl, rfl⟩
    · refine ⟨_, List.mem_map_of_mem h, ?_, ?_⟩
      · split_ifs <;> rfl
      · split_ifs <;> rfl
  | none =>
    dsimp only
    cases E.parseCreated (container.created.getD "") with
    | none => exact ⟨q, h, rfl, rfl⟩
    | some createdAt => exact ⟨q, List.mem_append_left _ h, rfl, rfl⟩

end Rows

/-! ## The containers one after the other -/

section Fold

variable {rows : List (ProcessDb κ η)} {c : ContainerSummary}

theorem rowsAfter_of_none (h : processKey c = none) : rowsAfter E rows c = rows := by
  simp [rowsAfter, h]

theorem rowsAfter_of_error {message : String} (h : E.inspect (idOf c) = .error message) : rowsAfter E rows c = rows := by
  unfold rowsAfter
  rw [h]
  cases processKey c with
  | none => rfl
  | some object => rfl

theorem rowsAfter_of_ok {kind : ProcessKind} {key : String} {container : ContainerInspectResponse κ η}
    (hkey : processKey c = some (kind, key)) (hin : E.inspect (idOf c) = .ok container) :
    rowsAfter E rows c = recordRow E key kind (idOf c) container rows := by
  simp [rowsAfter, hkey, hin]

theorem rowsAfter_cases (E : Env κ η) (c : ContainerSummary) : (∀ rows, rowsAfter E rows c = rows) ∨
    ∃ kind key container, processKey c = some (kind, key) ∧ E.inspect (idOf c) = .ok container ∧
      ∀ rows, rowsAfter E rows c = recordRow E key kind (idOf c) container rows := by
  cases hkey : processKey c with
  | none => exact .inl fun _ => rowsAfter_of_none hkey
  | some object =>
    cases hin : E.inspect (idOf c) with
    | error message => exact .inl fun _ => rowsAfter_of_error hin
    | ok container => exact .inr ⟨object.1, object.2, container, rfl, rfl, fun _ => rowsAfter_of_ok hkey hin⟩

theorem rowOf_rowsAfter_of_ne {j : String} (hj : j ≠ idOf c) : rowOf (rowsAfter E rows c) j = rowOf rows j := by
  rcases rowsAfter_cases E c with h | ⟨kind, key, container, -, -, h⟩
  · rw [h]
  · rw [h]
    exact rowOf_recordRow_of_ne hj

theorem shown_rowsAfter_iff : Shown E (rowsAfter E rows c) c ↔ Mendable E rows c := by
  cases hkey : processKey c with
  | none =>
    have hnot : ∀ kind key, ¬ processKey c = some (kind, key) := by simp [hkey]
    exact iff_of_true (fun kind key h => absurd h (hnot kind key)) fun kind key h => absurd h (hnot kind key)
  | some object =>
    obtain ⟨kind, key⟩ := object
    cases hin : E.inspect (idOf c) with
    | error message =>
      refine iff_of_false (fun h => ?_) fun h => ?_
      · obtain ⟨container, -, hok, -⟩ := h kind key hkey
        rw [hin] at hok
        cases hok
      · obtain ⟨container, hok, -⟩ := h kind key hkey
        rw [hin] at hok
        cases hok
    | ok container =>
      rw [rowsAfter_of_ok hkey hin]
      exact shown_recordRow_iff hkey hin

omit [DecidableEq κ] [DecidableEq η] in
theorem shown_congr {rows' : List (ProcessDb κ η)} (h : rowOf rows' (idOf c) = rowOf rows (idOf c)) :
    Shown E rows' c ↔ Shown E rows c := by
  unfold Shown
  rw [h]

theorem rowOf_foldl_of_notMem {m : List ContainerSummary} {j : String} (hj : j ∉ m.map idOf) :
    rowOf (m.foldl (rowsAfter E) rows) j = rowOf rows j := by
  induction m generalizing rows with
  | nil => rfl
  | cons c m ih =>
    rw [List.map_cons, List.mem_cons, not_or] at hj
    rw [List.foldl_cons, ih hj.2]
    exact rowOf_rowsAfter_of_ne hj.1

theorem rowOf_foldl_of_mem {m : List ContainerSummary} (hids : (m.map idOf).Nodup) (hc : c ∈ m) :
    rowOf (m.foldl (rowsAfter E) rows) (idOf c) = rowOf (rowsAfter E rows c) (idOf c) := by
  induction m generalizing rows with
  | nil => cases hc
  | cons d m ih =>
    rw [List.map_cons, List.nodup_cons] at hids
    rw [List.foldl_cons]
    rcases List.mem_cons.1 hc with rfl | hm
    · exact rowOf_foldl_of_notMem hids.1
    · rw [ih hids.2 hm]
      have hne : idOf c ≠ idOf d := by
        intro heq
        exact hids.1 (heq ▸ List.mem_map_of_mem hm)
      rcases rowsAfter_cases E c with h | ⟨kind, key, container, -, -, h⟩
      · rw [h, h]
        exact rowOf_rowsAfter_of_ne hne
      · rw [h, h, rowOf_recordRow_self, rowOf_recordRow_self, rowOf_rowsAfter_of_ne hne]

/-- a row that the pass has brought up to date is left alone -/
theorem rowsAfter_of_settled {rows' : List (ProcessDb κ η)}
    (h : rowOf rows' (idOf c) = rowOf (rowsAfter E rows c) (idOf c)) : rowsAfter E rows' c = rows' := by
  rcases rowsAfter_cases E c with hc | ⟨kind, key, container, -, -, hc⟩
  · exact hc rows'
  · rw [hc, rowOf_recordRow_self] at h
    rw [hc, recordRow, h]
    cases rowOf rows (idOf c) with
    | some p =>
      dsimp only [recorded]
      apply if_pos
      split_ifs with hdata
      · exact hdata
      · rfl
    | none =>
      dsimp only [recorded]
      cases E.parseCreated (container.created.getD "") with
      | none => rfl
      | some createdAt => exact if_pos rfl

theorem foldl_of_settled {m : List ContainerSummary} (h : ∀ c ∈ m, rowsAfter E rows c = rows) :
    m.foldl (rowsAfter E) rows = rows := by
  induction m with
  | nil => rfl
  | cons c m ih =>
    rw [List.foldl_cons, h c List.mem_cons_self]
    exact ih fun d hd => h d (List.mem_cons_of_mem _ hd)

theorem noZombie_rowsAfter_iff {l : List ContainerSummary} (hc : c ∈ l) :
    NoZombie E l (rowsAfter E rows c) ↔ NoZombie E l rows := by
  rcases rowsAfter_cases E c with h | ⟨kind, key, container, hkey, -, h⟩
  · rw [h]
  · rw [h]
    constructor
    · intro hall q hq hnode
      obtain ⟨p, hp, hpkey, hpnode⟩ := exists_mem_recordRow E key kind (idOf c) container hq
      exact hpkey ▸ hall p hp (hpnode.trans hnode)
    · intro hall p hp hnode
      rcases mem_recordRow hp with hid | ⟨q, hq, hqkey, hqnode⟩
      · exact ⟨c, hc, hkey ▸ rfl, hid.symm⟩
      · exact hqkey ▸ hall q hq (hqnode.trans hnode)

theorem noZombie_foldl_iff {l m : List ContainerSummary} (hm : ∀ c ∈ m, c ∈ l) :
    NoZombie E l (m.foldl (rowsAfter E) rows) ↔ NoZombie E l rows := by
  induction m generalizing rows with
  | nil => exact Iff.rfl
  | cons c m ih =>
    rw [List.foldl_cons, ih fun d hd => hm d (List.mem_cons_of_mem _ hd)]
    exact noZombie_rowsAfter_iff (hm c List.mem_cons_self)

end Fold

/-! ## The pass -/

section Pass

variable [DecidableEq ν] [Inhabited κ]

omit [DecidableEq ν] [Inhabited κ] in
theorem syncProcess_rows (E : Env κ η) (key : String) (kind : ProcessKind) (id : String)
    (container : ContainerInspectResponse κ η) (s : Store κ η ν) :
    (syncProcess E key kind id container s).2.processes = recordRow E key kind id container s.processes := by
  unfold syncProcess recordRow rowOf
  simp only [Prog.get_bind]
  cases s.processes.find? fun p => decide (p.key = id) with
  | some current =>
    dsimp only
    split_ifs
    · rfl
    · rfl
  | none =>
    dsimp only
    cases E.parseCreated (container.created.getD "") with
    | none => rfl
    | some createdAt => rfl

/-- the process rows are left alone -/
def SameRows (s s' : Store κ η ν) : Prop := s'.processes = s.processes

omit [DecidableEq κ] [DecidableEq η] [DecidableEq ν] [Inhabited κ] in
instance : IsPreorder (Store κ η ν) SameRows where
  refl _ := rfl
  trans _ _ _ h h' := Eq.trans h' h

omit [DecidableEq κ] [DecidableEq η] [DecidableEq ν] [Inhabited κ] in
theorem createObj_sameRows (E : Env κ η) (nsp : String) (spec : CargoSpecPartial κ η ν) :
    Prog.Keeps SameRows (createObj E nsp spec) := by
  unfold createObj
  split_ifs
  · refine Prog.keeps_bind (fun s => rfl) fun _ => Prog.keeps_bind Prog.keeps_get fun s => ?_
    split_ifs
    · exact Prog.keeps_fail _
    · exact fun s => rfl
  · exact Prog.keeps_fail _

omit [DecidableEq κ] [DecidableEq η] [DecidableEq ν] [Inhabited κ] in
theorem syncStatusOf_sameRows (key : String) (container : ContainerInspectResponse κ η) :
    Prog.Keeps (SameRows (κ := κ) (η := η) (ν := ν)) (syncStatusOf key container) := by
  unfold syncStatusOf
  cases syncCargoStatus container.status with
  | none => exact Prog.keeps_pure ()
  | some update =>
    refine Prog.keeps_bind Prog.keeps_get fun s => ?_
    cases s.statuses key with
    | none => exact Prog.keeps_fail _
    | some status => exact fun s => rfl

omit [DecidableEq κ] [DecidableEq η] [DecidableEq ν] [Inhabited κ] in
theorem updateFromSpec_sameRows (E : Env κ η) (key : String) (item : CargoSpecPartial κ η ν) :
    Prog.Keeps SameRows (updateFromSpec E key item) := by
  unfold updateFromSpec
  refine Prog.keeps_bind Prog.keeps_get fun s => ?_
  cases s.cargoes key with
  | none => exact Prog.keeps_fail _
  | some cargo => exact fun s => rfl

theorem syncCargo_sameRows (E : Env κ η) (key name nsp : String) (container : ContainerInspectResponse κ η) :
    Prog.Keeps (SameRows (ν := ν)) (syncCargo E key name nsp container) := by
  intro s
  cases hc : s.cargoes key with
  | none =>
    rw [syncCargo_new E name nsp container hc]
    have hnew : Prog.Keeps (SameRows (ν := ν)) (do
        registerNamespace nsp
        createObj E nsp (specOf name container)
        syncStatusOf (genKey nsp name) container) :=
      Prog.keeps_bind (fun s => rfl) fun _ =>
        Prog.keeps_bind (createObj_sameRows E nsp _) fun _ => syncStatusOf_sameRows _ _
    exact hnew s
  | some cargo =>
    rw [syncCargo_known E name nsp container hc]
    refine Prog.keeps_bind (syncStatusOf_sameRows _ _) (fun _ => ?_) s
    split_ifs
    · exact Prog.keeps_pure ()
    · exact updateFromSpec_sameRows E key _

omit [DecidableEq κ] [DecidableEq η] [DecidableEq ν] [Inhabited κ] in
theorem arrived_congr {s s' : Store κ η ν} {l : List ContainerSummary}
    (h : ∀ c ∈ l, syncable E s' c = syncable E s c) : arrived E s' l = arrived E s l := by
  induction l with
  | nil => rfl
  | cons c l ih =>
    rw [arrived, arrived, h c List.mem_cons_self, ih fun d hd => h d (List.mem_cons_of_mem _ hd)]

omit [DecidableEq κ] [DecidableEq η] [DecidableEq ν] [Inhabited κ] in
theorem arrived_sublist (E : Env κ η) (s : Store κ η ν) (l : List ContainerSummary) : (arrived E s l).Sublist l := by
  induction l with
  | nil => exact List.Sublist.refl _
  | cons c l ih =>
    rw [arrived]
    split_ifs
    · exact ih.cons_cons c
    · exact (List.nil_sublist l).cons_cons c

omit [DecidableEq κ] [DecidableEq η] [DecidableEq ν] [Inhabited κ] in
theorem mem_of_mem_arrived {s : Store κ η ν} {l : List ContainerSummary} {c : ContainerSummary} (h : c ∈ arrived E s l) :
    c ∈ l :=
  (arrived_sublist E s l).subset h

omit [DecidableEq κ] [DecidableEq η] [DecidableEq ν] [Inhabited κ] in
theorem arrived_eq_self {s : Store κ η ν} {l : List ContainerSummary} (h : ∀ c ∈ l, syncable E s c = true) :
    arrived E s l = l := by
  induction l with
  | nil => rfl
  | cons c l ih =>
    rw [arrived, if_pos (h c List.mem_cons_self), ih fun d hd => h d (List.mem_cons_of_mem _ hd)]

/-- what the loop over the containers does to the rows, and how it ends -/
structure LoopRows (E : Env κ η) (l : List ContainerSummary) (ids : List String) (s : Store κ η ν)
    (r : Except String (List String) × Store κ η ν) : Prop where
  rows : r.2.processes = (arrived E s l).foldl (rowsAfter E) s.processes
  ok : (∀ c ∈ l, syncable E s c = true) → r.1 = .ok (ids ++ (l.filter fun c => (processKey c).isSome).map idOf)
  error : ¬ (∀ c ∈ l, syncable E s c = true) → ∃ message, r.1 = .error message
  settled : ∀ k, settled E r.2 k = settled E s k

omit [DecidableEq ν] [Inhabited κ] in
/-- the loop gets past a container -/
theorem LoopRows.past {c : ContainerSummary} {l : List ContainerSummary} {ids ids' : List String} {s s' : Store κ η ν}
    {r : Except String (List String) × Store κ η ν} (h : LoopRows E l ids' s' r) (hok : syncable E s c = true)
    (hids : ids' = ids ++ if (processKey c).isSome then [idOf c] else []) (hsync : syncable E s' = syncable E s)
    (hset : ∀ k, Sync.settled E s' k = Sync.settled E s k) (hrows : s'.processes = rowsAfter E s.processes c) :
    LoopRows E (c :: l) ids s r where
  rows := by
    rw [h.rows, arrived_congr fun d _ => congrFun hsync d, arrived, if_pos hok, List.foldl_cons, hrows]
  ok hall := by
    rw [h.ok fun d hd => hsync ▸ hall d (List.mem_cons_of_mem _ hd), hids, List.filter_cons]
    split_ifs
    · simp
    · simp
  error hnot := by
    apply h.error
    intro hall
    apply hnot
    intro d hd
    rcases List.mem_cons.1 hd with rfl | hl
    · exact hok
    · exact hsync ▸ hall d hl
  settled k := (h.settled k).trans (hset k)

omit [DecidableEq ν] [Inhabited κ] in
/-- the loop ends at a container -/
theorem LoopRows.stop {c : ContainerSummary} {l : List ContainerSummary} {ids : List String} {s s' : Store κ η ν}
    {message : String} (hno : syncable E s c = false) (hset : ∀ k, Sync.settled E s' k = Sync.settled E s k)
    (hrows : s'.processes = rowsAfter E s.processes c) : LoopRows E (c :: l) ids s (.error message, s') where
  rows := by
    rw [arrived, if_neg (by simp [hno]), List.foldl_cons, List.foldl_nil]
    exact hrows
  ok hall := by
    have hyes := hall c List.mem_cons_self
    rw [hno] at hyes
    cases hyes
  error _ := ⟨message, rfl⟩
  settled := hset

theorem syncContainers_rows (E : Env κ η) (l : List ContainerSummary) (inspected ids : List String) (s : Store κ η ν)
    (hI : ∀ k ∈ inspected, (s.cargoes k).isSome) : LoopRows E l ids s (syncContainers E l inspected ids s) := by
  induction l generalizing inspected ids s with
  | nil => exact ⟨rfl, fun _ => congrArg _ (List.append_nil ids).symm, fun hnot => absurd (by simp) hnot, fun _ => rfl⟩
  | cons c l ih =>
    cases hkey : processKey c with
    | none =>
      have hok : syncable E s c = true := by simp [syncable, hkey]
      rw [syncContainers_skip E l inspected ids hkey]
      exact (ih inspected ids s hI).past hok (by simp [hkey]) rfl (fun _ => rfl) (rowsAfter_of_none hkey).symm
    | some object =>
      obtain ⟨kind, key⟩ := object
      have hids : ids ++ [idOf c] = ids ++ if (processKey c).isSome then [idOf c] else [] := by simp [hkey]
      cases hin : E.inspect (idOf c) with
      | error message =>
        have hno : syncable E s c = false := by
          unfold syncable
          rw [hkey]
          dsimp only
          rw [hin]
        rw [syncContainers_unread E l inspected ids hkey hin]
        exact .stop hno (fun _ => rfl) (rowsAfter_of_error hin).symm
      | ok container =>
        have hrec := syncProcess_rows E key kind (idOf c) container s
        rw [← rowsAfter_of_ok hkey hin] at hrec
        rcases syncProcess_cases E key kind (idOf c) container s with
          ⟨hstored, s₁, hs₁, hentry, hproc⟩ | ⟨hno, message, hs₁⟩
        · rw [hs₁] at hrec
          have hset : ∀ k, settled E s₁ k = settled E s k := fun k => settled_of_entry E (congrFun hentry k)
          have hsync : syncable E s₁ = syncable E s := syncable_congr E hin hstored hproc hset
          have hI₁ : ∀ k ∈ inspected, (s₁.cargoes k).isSome := by
            intro k hk
            have hcargo : s₁.cargoes k = s.cargoes k := congrArg Entry.cargo (congrFun hentry k)
            rw [hcargo]
            exact hI k hk
          cases hsplit : (if kind = .cargo then splitKey key else none) with
          | none =>
            have hsub : subject c = none := by
              cases kind <;> simp_all [subject]
            have hok : syncable E s c = true := by
              simp [syncable, hkey, hin, hstored, hsub]
            rw [syncContainers_row E l inspected ids hkey hin hs₁ (.inl hsplit)]
            exact (ih inspected (ids ++ [idOf c]) s₁ hI₁).past hok hids hsync hset hrec
          | some nameNsp =>
            obtain ⟨name, nsp⟩ := nameNsp
            obtain rfl : kind = .cargo := by
              by_contra hne
              simp [hne] at hsplit
            rw [if_pos rfl] at hsplit
            have hsub : subject c = some key := by simp [subject, hkey, hsplit]
            have hsyncable : syncable E s c = settled E s key := by
              simp [syncable, hkey, hin, hstored, hsub]
            by_cases hmem : key ∈ inspected
            · have hok : syncable E s c = true := by
                rw [hsyncable]
                simp [settled, hI key hmem]
              rw [syncContainers_row E l inspected ids hkey hin hs₁ (.inr hmem)]
              exact (ih inspected (ids ++ [idOf c]) s₁ hI₁).past hok hids hsync hset hrec
            · rw [syncContainers_first E l inspected ids hkey hin hs₁ hsplit hmem]
              rcases syncCargo_cases E hsplit container s₁ with
                ⟨hsettled, s₂, hs₂, hproc₂, hentry₂⟩ | ⟨hno, message, s₂, hs₂, hkept⟩
              · have hkey₁ : settled E s₁ key = true := by simpa [settled] using hsettled
                have hok : syncable E s c = true := hsyncable.trans ((hset key).symm.trans hkey₁)
                have hset₂ : ∀ k, settled E s₂ k = settled E s k := fun k =>
                  (settled_of_update E hentry₂ hkey₁ k).trans (hset k)
                have hsync₂ : syncable E s₂ = syncable E s :=
                  syncable_congr E hin hstored (fun i => by rw [hproc₂]; exact hproc i) hset₂
                have hI₂ : ∀ k ∈ key :: inspected, (s₂.cargoes k).isSome := by
                  intro k hk
                  by_cases hkk : k = key
                  · have he : s₂.entry k = decide_ E name nsp container (s₁.entry key) := by
                      rw [hentry₂, hkk, Function.update_self]
                    rw [show s₂.cargoes k = _ from congrArg Entry.cargo he]
                    exact decide_isSome E _ _ _ _
                  · have he : s₂.entry k = s₁.entry k := by rw [hentry₂, Function.update_of_ne hkk]
                    rw [show s₂.cargoes k = s₁.cargoes k from congrArg Entry.cargo he]
                    exact hI₁ k ((List.mem_cons.1 hk).resolve_left hkk)
                rw [Prog.bind_of_ok hs₂]
                exact (ih (key :: inspected) (ids ++ [idOf c]) s₂ hI₂).past hok hids hsync₂ hset₂ (hproc₂.trans hrec)
              · have hkey₁ : settled E s₁ key = false := by simpa [settled] using hno
                have hno' : syncable E s c = false := hsyncable.trans ((hset key).symm.trans hkey₁)
                rw [Prog.bind_of_error hs₂]
                have hsame : s₂.processes = s₁.processes := by
                  have hkeeps := syncCargo_sameRows E key name nsp container s₁
                  rwa [hs₂] at hkeeps
                have hset₂ : ∀ k, settled E s₂ k = settled E s k := by
                  intro k
                  rw [← hset k, settled, settled, Store.creatable, Store.creatable, (hkept k).1, (hkept k).2.1]
                exact .stop hno' hset₂ (hsame.trans hrec)
        · rw [hs₁] at hrec
          rw [syncContainers_unwritten E l inspected ids hkey hin hs₁]
          have hno' : syncable E s c = false := by
            simp [syncable, hkey, hin, hno]
          exact .stop hno' (fun _ => rfl) hrec

omit [DecidableEq κ] [DecidableEq η] [DecidableEq ν] [Inhabited κ] in
/-- the deletion at the end leaves the rows of the containers that the pass has met -/
theorem rowOf_filter {rows : List (ProcessDb κ η)} {ids : List String} {hostname id : String} (hid : id ∈ ids) :
    rowOf (rows.filter fun p => ¬ (p.key ∉ ids ∧ p.nodeName = hostname)) id = rowOf rows id := by
  unfold rowOf
  rw [List.find?_filter]
  congr 1
  funext p
  by_cases hp : p.key = id
  · simp [hp, hid]
  · simp [hp]

/-- the pass gets past all the containers, and deletes the rows without one -/
theorem syncProcesses_of_syncable {l : List ContainerSummary} {s : Store κ η ν} (h : ∀ c ∈ l, syncable E s c = true) :
    (syncProcesses E l s).2.processes = (l.foldl (rowsAfter E) s.processes).filter fun p =>
      ¬ (p.key ∉ (l.filter fun c => (processKey c).isSome).map idOf ∧ p.nodeName = E.hostname) := by
  have hloop := syncContainers_rows E l [] [] s (by simp)
  rcases hr : syncContainers E l [] [] s with ⟨e | ids, s'⟩
  · have hok := hloop.ok h
    rw [hr] at hok
    cases hok
  · rw [hr] at hloop
    obtain rfl := Except.ok.inj (hloop.ok h)
    have hrows : s'.processes = l.foldl (rowsAfter E) s.processes := by
      rw [← arrived_eq_self h]
      exact hloop.rows
    unfold syncProcesses
    rw [Prog.bind_of_ok hr, ← hrows]
    rfl

/-- a container ends the pass, and nothing is deleted -/
theorem syncProcesses_of_not_syncable {l : List ContainerSummary} {s : Store κ η ν}
    (h : ¬ ∀ c ∈ l, syncable E s c = true) :
    (syncProcesses E l s).2.processes = (arrived E s l).foldl (rowsAfter E) s.processes := by
  have hloop := syncContainers_rows E l [] [] s (by simp)
  obtain ⟨message, herror⟩ := hloop.error h
  rcases hr : syncContainers E l [] [] s with ⟨e | ids, s'⟩
  · unfold syncProcesses
    rw [Prog.bind_of_error hr, ← hloop.rows, hr]
  · rw [hr] at herror
    cases herror

section

variable {l : List ContainerSummary} {s : Store κ η ν} {c : ContainerSummary}

/-- a container that the pass arrives at has the row that `sync_process` makes for it -/
theorem rowOf_of_arrived (hids : (l.map idOf).Nodup) (hc : c ∈ arrived E s l) (hobject : (processKey c).isSome) :
    rowOf (syncProcesses E l s).2.processes (idOf c) = rowOf (rowsAfter E s.processes c) (idOf c) := by
  have hnodup : ((arrived E s l).map idOf).Nodup := hids.sublist ((arrived_sublist E s l).map idOf)
  have hfold : rowOf ((arrived E s l).foldl (rowsAfter E) s.processes) (idOf c) =
      rowOf (rowsAfter E s.processes c) (idOf c) := rowOf_foldl_of_mem hnodup hc
  by_cases hall : ∀ c ∈ l, syncable E s c = true
  · rw [syncProcesses_of_syncable hall]
    rw [arrived_eq_self hall] at hc hfold
    rw [← hfold]
    apply rowOf_filter
    exact List.mem_map_of_mem (List.mem_filter.2 ⟨hc, hobject⟩)
  · rw [syncProcesses_of_not_syncable hall]
    exact hfold

/-- the others have the row they had -/
theorem rowOf_of_not_arrived (hids : (l.map idOf).Nodup) (hc : c ∈ l) (hout : c ∉ arrived E s l) :
    rowOf (syncProcesses E l s).2.processes (idOf c) = rowOf s.processes (idOf c) := by
  have hnot : ¬ ∀ c ∈ l, syncable E s c = true := by
    intro hall
    rw [arrived_eq_self hall] at hout
    exact hout hc
  rw [syncProcesses_of_not_syncable hnot]
  apply rowOf_foldl_of_notMem
  intro hin
  obtain ⟨d, hd, hid⟩ := List.mem_map.1 hin
  -- the ids tell the containers apart
  have heq : d = c := List.inj_on_of_nodup_map hids (mem_of_mem_arrived hd) hc hid
  exact hout (heq ▸ hd)

theorem shown_of_arrived (hids : (l.map idOf).Nodup) (hc : c ∈ arrived E s l) :
    Shown E (syncProcesses E l s).2.processes c ↔ Mendable E s.processes c := by
  by_cases hobject : (processKey c).isSome
  · rw [shown_congr (rowOf_of_arrived hids hc hobject)]
    exact shown_rowsAfter_iff
  · have hnot : ∀ kind key, ¬ processKey c = some (kind, key) := fun kind key h => hobject (h ▸ rfl)
    exact iff_of_true (fun kind key h => absurd h (hnot kind key)) fun kind key h => absurd h (hnot kind key)

theorem noZombie_of_syncable (hall : ∀ c ∈ l, syncable E s c = true) :
    NoZombie E l (syncProcesses E l s).2.processes := by
  intro p hp hnode
  rw [syncProcesses_of_syncable hall] at hp
  have hkept := of_decide_eq_true (List.mem_filter.1 hp).2
  have hmem : p.key ∈ (l.filter fun c => (processKey c).isSome).map idOf := by
    by_contra hout
    exact hkept ⟨hout, hnode⟩
  obtain ⟨c, hc, hid⟩ := List.mem_map.1 hmem
  exact ⟨c, (List.mem_filter.1 hc).1, (List.mem_filter.1 hc).2, hid⟩

end

/-- **A restart brings the process table in line.** Whatever the table was: after the pass the rows of this node are
docker's containers of objects, exactly if the pass can put right each container it arrives at, and gets past all of
them, or what it did not get to was right already. -/
theorem table_shows_iff (E : Env κ η) (l : List ContainerSummary) (s : Store κ η ν) (hids : (l.map idOf).Nodup) :
    TableShows E l (syncProcesses E l s).2.processes ↔
      (∀ c ∈ arrived E s l, Mendable E s.processes c) ∧
        ((∀ c ∈ l, syncable E s c = true) ∨
          (∀ c ∈ l, c ∉ arrived E s l → Shown E s.processes c) ∧ NoZombie E l s.processes) := by
  have hrest : ∀ c ∈ l, c ∉ arrived E s l → (Shown E (syncProcesses E l s).2.processes c ↔ Shown E s.processes c) :=
    fun c hc hout => shown_congr (rowOf_of_not_arrived hids hc hout)
  constructor
  · intro h
    refine ⟨fun c hc => (shown_of_arrived hids hc).1 (h.shown c (mem_of_mem_arrived hc)), ?_⟩
    by_cases hall : ∀ c ∈ l, syncable E s c = true
    · exact .inl hall
    · refine .inr ⟨fun c hc hout => (hrest c hc hout).1 (h.shown c hc), ?_⟩
      have hzombie := h.noZombie
      rw [syncProcesses_of_not_syncable hall] at hzombie
      exact (noZombie_foldl_iff fun c => mem_of_mem_arrived).1 hzombie
  · rintro ⟨hmend, hothers⟩
    constructor
    · intro c hc
      by_cases hin : c ∈ arrived E s l
      · exact (shown_of_arrived hids hin).2 (hmend c hin)
      · refine (hrest c hc hin).2 ?_
        rcases hothers with hall | hothers
        · rw [arrived_eq_self hall] at hin
          exact absurd hc hin
        · exact hothers.1 c hc hin
    · by_cases hall : ∀ c ∈ l, syncable E s c = true
      · exact noZombie_of_syncable hall
      · rw [syncProcesses_of_not_syncable hall]
        exact (noZombie_foldl_iff fun c => mem_of_mem_arrived).2 (hothers.resolve_left hall).2

/-- a container that was renamed while the daemon looked at it -/
def renamed : ContainerInspectResponse Unit Unit := ⟨none, some "/web-b.global.c", some .running, some (), none⟩

def renamedSummary : ContainerSummary := ⟨some "web", some [("io.nanocl.kind", "cargo"), ("io.nanocl.c", "web.global")]⟩

def renamedEnv : Env Unit Unit := ⟨"node-1", "v0.1", fun _ => .ok renamed, fun _ => none, Char.isAlphanum⟩

/-- its row has the new data and the old name -/
def renamedStore : Store Unit Unit Unit where
  cargoes _ := none
  history _ := []
  statuses _ := none
  namespaces := []
  processes := [⟨"web", "web-a.global.c", .cargo, "web.global", "node-1", 0, renamed⟩]
  status_of_cargo _ h := h

/-- the pass leaves a name that is out of date, the data being up to date -/
theorem stale_name_kept :
    ¬ TableShows renamedEnv [renamedSummary] (syncProcesses renamedEnv [renamedSummary] renamedStore).2.processes := by
  rw [table_shows_iff renamedEnv [renamedSummary] renamedStore (List.nodup_singleton _)]
  intro h
  have harrived : renamedSummary ∈ arrived renamedEnv renamedStore [renamedSummary] := by
    rw [arrived]
    split_ifs
    · exact List.mem_cons_self
    · exact List.mem_cons_self
  obtain ⟨container, hin, hrow⟩ := h.1 renamedSummary harrived .cargo "web.global" (by decide)
  obtain rfl : renamed = container := Except.ok.inj hin
  have hname : "web-a.global.c" = nameOf renamed := hrow.2.2.2 rfl
  revert hname
  decide

/-! ## The next pass -/

section

variable {l : List ContainerSummary} {s : Store κ η ν} {c : ContainerSummary}

omit [DecidableEq κ] [DecidableEq η] [DecidableEq ν] [Inhabited κ] in
theorem recordable_eq (E : Env κ η) (s : Store κ η ν) (id : String) (container : ContainerInspectResponse κ η) :
    recordable E s id container =
      ((rowOf s.processes id).isSome || (E.parseCreated (container.created.getD "")).isSome) := by
  unfold recordable rowOf
  rw [List.isSome_find?]

theorem syncProcesses_settled (E : Env κ η) (l : List ContainerSummary) (s : Store κ η ν) (k : String) :
    settled E (syncProcesses E l s).2 k = settled E s k := by
  have hloop := (syncContainers_rows E l [] [] s (by simp)).settled k
  rcases hr : syncContainers E l [] [] s with ⟨e | ids, s'⟩
  · rw [hr] at hloop
    unfold syncProcesses
    rw [Prog.bind_of_error hr]
    exact hloop
  · rw [hr] at hloop
    unfold syncProcesses
    rw [Prog.bind_of_ok hr]
    exact hloop

/-- the next pass finds the same rows that it can write -/
theorem recordable_again (hids : (l.map idOf).Nodup) (hc : c ∈ l) {kind : ProcessKind} {key : String}
    (hkey : processKey c = some (kind, key)) {container : ContainerInspectResponse κ η}
    (hin : E.inspect (idOf c) = .ok container) :
    recordable E (syncProcesses E l s).2 (idOf c) container = recordable E s (idOf c) container := by
  rw [recordable_eq, recordable_eq]
  by_cases harrived : c ∈ arrived E s l
  · rw [rowOf_of_arrived hids harrived (hkey ▸ rfl), rowsAfter_of_ok hkey hin, rowOf_recordRow_self]
    cases rowOf s.processes (idOf c) with
    | some p => rfl
    | none => simp [recorded]
  · rw [rowOf_of_not_arrived hids hc harrived]

theorem syncable_again (hids : (l.map idOf).Nodup) (hc : c ∈ l) :
    syncable E (syncProcesses E l s).2 c = syncable E s c := by
  unfold syncable
  cases hkey : processKey c with
  | none => rfl
  | some object =>
    cases hin : E.inspect (idOf c) with
    | error message => rfl
    | ok container =>
      dsimp only
      rw [recordable_again hids hc hkey hin]
      cases subject c with
      | none => rfl
      | some key =>
        dsimp only
        rw [syncProcesses_settled]

end

/-- **Another pass changes no row.** Over the same containers, whatever they and the store are, and whether the passes get
through or not. -/
theorem sync_again (E : Env κ η) (l : List ContainerSummary) (s : Store κ η ν) (hids : (l.map idOf).Nodup) :
    (syncProcesses E l (syncProcesses E l s).2).2.processes = (syncProcesses E l s).2.processes := by
  have harrived : arrived E (syncProcesses E l s).2 l = arrived E s l := arrived_congr fun c hc => syncable_again hids hc
  have hrows : (arrived E s l).foldl (rowsAfter E) (syncProcesses E l s).2.processes =
      (syncProcesses E l s).2.processes := by
    apply foldl_of_settled
    intro c hc
    by_cases hobject : (processKey c).isSome
    · exact rowsAfter_of_settled (rowOf_of_arrived hids hc hobject)
    · exact rowsAfter_of_none (Option.not_isSome_iff_eq_none.1 hobject)
  by_cases hall : ∀ c ∈ l, syncable E s c = true
  · have hall' : ∀ c ∈ l, syncable E (syncProcesses E l s).2 c = true := fun c hc =>
      (syncable_again hids hc).trans (hall c hc)
    rw [arrived_eq_self hall] at hrows
    rw [syncProcesses_of_syncable hall', hrows, syncProcesses_of_syncable hall, List.filter_filter]
    simp
  · have hall' : ¬ ∀ c ∈ l, syncable E (syncProcesses E l s).2 c = true := by
      intro h
      apply hall
      intro c hc
      exact (syncable_again hids hc).symm.trans (h c hc)
    rw [syncProcesses_of_not_syncable hall', harrived, hrows]

/-- a cargo whose container runs under a new name, and a job whose container has no row yet -/
def restartedList : List ContainerSummary :=
  [renamedSummary, ⟨some "build", some [("io.nanocl.kind", "job"), ("io.nanocl.j", "build")]⟩]

def restartedEnv : Env Unit Unit where
  hostname := "node-1"
  version := "v0.1"
  inspect id := .ok (if id = "web" then renamed else ⟨some "2024-10-01", some "/build-0.j", some .exited, some (), none⟩)
  parseCreated date := if date = "2024-10-01" then some 20 else none
  isAlphanumeric := Char.isAlphanum

/-- the row of the cargo is out of date, and the one of a removed container is still there -/
def restartedStore : Store Unit Unit Unit :=
  { renamedStore with
    processes :=
      [⟨"web", "web-a.global.c", .cargo, "web.global", "node-1", 0, ⟨none, some "/web-a.global.c", some .running, some (), none⟩⟩,
        ⟨"db", "db.global.c", .cargo, "db.global", "node-1", 0, ⟨none, some "/db.global.c", some .exited, some (), none⟩⟩] }

/-- the first pass updates a row, adds one and deletes one, and the second pass changes none -/
theorem restarted_again :
    (syncProcesses restartedEnv restartedList restartedStore).2.processes.map (fun p => (p.key, p.name)) =
        [("web", "web-b.global.c"), ("build", "build-0.j")] ∧
      (syncProcesses restartedEnv restartedList (syncProcesses restartedEnv restartedList restartedStore).2).2.processes =
        (syncProcesses restartedEnv restartedList restartedStore).2.processes :=
  ⟨by decide +kernel, sync_again restartedEnv restartedList restartedStore (by decide)⟩

end Pass

end Nanocl.Sync
