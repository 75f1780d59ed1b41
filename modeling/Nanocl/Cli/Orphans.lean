/-
`state apply --remove-orphans` (`nanocl/src/commands/state.rs::remove_orphans`, `state_remove`) and the removal of objects
by name (`commands/generic.rs::exec_rm`), against the objects that the daemon keeps.

`remove_orphans` lists the objects with the label of the group, keeps in each section of the state the listed ones that it
does not declare, and removes what is in the sections then. A section that the state leaves out stays out, the section of
the jobs is the declared one, and a listing has the newest 100 objects at most. A deletion goes by the name and the
namespace, also where the key of a cargo or a VM is made of another name.

- `list_eq`: what a listing returns.
- `removeSections_done_iff`: when a removal deletes all it asks for, if the daemon lets everything be deleted.
- `removes_orphans_iff`: when `remove_orphans` removes exactly the orphans.
- `orphan_kept`: the objects of a section that the state leaves out are kept.
-/
import Nanocl.Cli.Statefile
import Nanocl.Cli.Waiter
import Nanocl.Store.Filter
import Nanocl.Lib.Table
import Nanocl.System.Sync

namespace Nanocl.Cli

open Nanocl.Lib

/-! ## Objects of the daemon -/

inductive ObjKind where
  | secret | job | cargo | vm | resource
deriving DecidableEq

/-- objects of the kind live in a namespace -/
def ObjKind.namespaced : ObjKind → Bool
  | .cargo | .vm => true
  | .secret | .job | .resource => false

/-- a row of a listing: an object joined with its specification and its status -/
structure Obj where
  /-- the key of a cargo or a VM, which a put or a revert under another name leaves as it is -/
  key : String
  name : String
  /-- the namespace of a cargo or a VM -/
  namespace_ : String
  metadata : Option Json
  createdAt : ℤ

/-- the primary key -/
def Obj.pk (kind : ObjKind) (o : Obj) : String := if kind.namespaced then o.key else o.name

structure Daemon where
  namespaces : List String
  objects : (kind : ObjKind) → Table (Obj.pk kind)

structure RmEnv where
  externals : Externals
  /-- the error of a listing -/
  listing : ObjKind → Option String
  /-- the error of a deletion, other than that the object is missing -/
  refusal : ObjKind → String → Option String
  /-- what the waiter of a deletion returns; nothing if it does not return -/
  waiter : ObjKind → String → Option (Except WaitError Unit)

/-! ## Listings -/

section Listings

variable (E : RmEnv)

/-- the columns that the filters of the command line are about -/
def listColumns : Columns :=
  [("metadata", .json, "metadata"), ("namespace_name", .text, "namespace_name")]

def Obj.toRow (o : Obj) : Row
  | "metadata" => o.metadata.elim .null .json
  | "namespace_name" => .text o.namespace_
  | _ => .null

/-- `created_at.desc()` -/
def Obj.newer (a b : Obj) : Bool := b.createdAt ≤ a.createdAt

/-- the filter of `remove_orphans` -/
def groupFilter (group : String) : GenericFilter :=
  GenericFilter.new.where "metadata" (.contains (.obj [("io.nanocl.group", .str group)]))

/-- `list_secret`, `list_cargo`, `list_vm` and `list_resource`, with the namespace for cargoes and VMs -/
def list (kind : ObjKind) (filter : GenericFilter) (ns : String) (d : Daemon) : Except String (List Obj) := do
  if let some e := E.listing kind then throw e
  if kind.namespaced && !(d.namespaces.contains ns) then throw "NamespaceDb: Record not found"
  let filter := if kind.namespaced then filter.where "namespace_name" (.eq ns) else filter
  let query ← genReadQuery E.externals listColumns Obj.toRow Obj.newer filter
  return query.run (d.objects kind).rows

/-- the object has the label of the group -/
def Obj.labelled (group : String) (o : Obj) : Bool :=
  (o.metadata.map fun m => m.contains (.obj [("io.nanocl.group", .str group)])).getD false

/-- the object is in the namespace, if objects of the kind are in one -/
def Obj.isIn (kind : ObjKind) (ns : String) (o : Obj) : Bool := !kind.namespaced || o.namespace_ = ns

/-- the newest 100 of the objects with the label -/
def newestLabelled (kind : ObjKind) (group ns : String) (d : Daemon) : List Obj :=
  (((d.objects kind).rows.filter fun o => o.labelled group && o.isIn kind ns).insertionSort fun a b =>
    Obj.newer a b = true).take 100

/-- the error of the listing of a kind -/
def listError (kind : ObjKind) (ns : String) (d : Daemon) : Option String :=
  match E.listing kind with
  | some e => some e
  | none => if kind.namespaced && !(d.namespaces.contains ns) then some "NamespaceDb: Record not found" else none

end Listings

/-! ## Removals -/

section Removals

variable (E : RmEnv)

/-- how a part of the command ends; `stuck` if it waits for ever -/
inductive Ended where
  | ok | err | stuck
deriving DecidableEq

/-- the key that the deletion of a name is about; for a VM the query has no namespace, so it is in `global` -/
def target (kind : ObjKind) (ns name : String) : String :=
  match kind with
  | .cargo => Sync.genKey ns name
  | .vm => Sync.genKey "global" name
  | .secret | .job | .resource => name

/-- `DELETE /{object}/{name}` -/
def deleteObj (kind : ObjKind) (ns name : String) (d : Daemon) : Option Daemon :=
  match (d.objects kind).find (target kind ns name), E.refusal kind (target kind ns name) with
  | some _, none => some { d with objects := Function.update d.objects kind ((d.objects kind).delete (target kind ns name)) }
  | _, _ => none

/-- `waiter.await??`; secrets and resources have no waiter -/
def awaited (kind : ObjKind) (name : String) : Ended :=
  match kind with
  | .secret | .resource => .ok
  | .job | .cargo | .vm =>
    match E.waiter kind name with
    | none => .stuck
    | some (.ok ()) => .ok
    | some (.error _) => .err

/-- `exec_rm`: a deletion that is refused is printed and skipped -/
def execRm (kind : ObjKind) (ns : String) : List String → Daemon → Ended × Daemon
  | [], d => (.ok, d)
  | name :: names, d =>
    match deleteObj E kind ns name d with
    | none => execRm kind ns names d
    | some d' =>
      match awaited E kind name with
      | .ok => execRm kind ns names d'
      | .err => (.err, d')
      | .stuck => (.stuck, d')

/-- the sections of a state, by the names in them -/
abbrev Sections := ObjKind → Option (List String)

/-- `state_remove` from a section on: the result of a section is discarded -/
def removeSections (ns : String) (sections : Sections) : List ObjKind → Daemon → Ended × Daemon
  | [], d => (.ok, d)
  | kind :: kinds, d =>
    match sections kind with
    | none => removeSections ns sections kinds d
    | some names =>
      match execRm E kind ns names d with
      | (.stuck, d') => (.stuck, d')
      | (_, d') => removeSections ns sections kinds d'

/-- `state_remove` -/
def stateRemove (ns : Option String) (sections : Sections) (d : Daemon) : Ended × Daemon :=
  removeSections E (ns.getD "global") sections [.job, .cargo, .vm, .resource, .secret] d

variable {δ : Type}

/-- the names in the sections of a state -/
def Statefile.sections (s : Statefile δ) : Sections
  | .secret => s.secrets.map fun l => l.map (·.name)
  | .job => s.jobs.map fun l => l.map (·.name)
  | .cargo => s.cargoes.map fun l => l.map (·.name)
  | .vm => s.virtualMachines.map fun l => l.map (·.name)
  | .resource => s.resources.map fun l => l.map (·.name)

/-- `get_nanocl_group` -/
def getNanoclGroup (state : StateRef δ) : String := state.data.group.getD state.location

/-- the section that `remove_orphans` hands to `state_remove`; that of the jobs is cloned from the state -/
def removedSection (state : StateRef δ) (kind : ObjKind) (old : List Obj) : Option (List String) :=
  (state.data.sections kind).map fun names => (old.map (·.name)).filter fun name => !(names.contains name)

/-- `remove_orphans` -/
def removeOrphans (state : StateRef δ) (d : Daemon) : Ended × Daemon :=
  let filter := groupFilter (getNanoclGroup state)
  let ns := state.data.namespace_.getD "global"
  let listings : Except String Sections := do
    let oldSecrets ← list E .secret filter ns d
    let oldCargoes ← list E .cargo filter ns d
    let oldVms ← list E .vm filter ns d
    let oldResources ← list E .resource filter ns d
    return fun
      | .secret => removedSection state .secret oldSecrets
      | .cargo => removedSection state .cargo oldCargoes
      | .vm => removedSection state .vm oldVms
      | .resource => removedSection state .resource oldResources
      | .job => state.data.sections .job
  match listings with
  | .error _ => (.err, d)
  | .ok sections => stateRemove E state.data.namespace_ sections d

/-- labelled with the group of the state, in its namespace, and not declared by it -/
def orphan (state : StateRef δ) (kind : ObjKind) (o : Obj) : Bool :=
  o.labelled (getNanoclGroup state) && o.isIn kind (state.data.namespace_.getD "global") &&
    !(((state.data.sections kind).getD []).contains o.name)

/-- the daemon without the objects of a class -/
def Daemon.without (d : Daemon) (p : ObjKind → Obj → Bool) : Daemon :=
  { d with objects := fun kind => (d.objects kind).deleteWhere (p kind) }

end Removals

/-! ## What is listed -/

section Listed

variable {E : RmEnv}

theorem genReadQuery_group (X : Externals) (group : String) :
    genReadQuery X listColumns Obj.toRow Obj.newer (groupFilter group) =
      .ok { clause := some fun o => o.labelled group, le := Obj.newer, limit := some 100, offset := 0 } := by
  have hrow : ∀ o : Obj, onJson (fun j => j.contains (.obj [("io.nanocl.group", .str group)])) (o.toRow "metadata") =
      o.labelled group := by
    intro o
    cases hm : o.metadata <;> simp [Obj.toRow, Obj.labelled, onJson, hm]
  simp [genReadQuery, readOrder, genSqlQuery, groupFilter, GenericFilter.where, GenericFilter.new, Conditions.insert,
    genSqlWhere, genSqlWhere4json, filterBy, jsonClause, Where.filter, listColumns, Columns.get, hrow]

theorem genReadQuery_groupNamespace (X : Externals) (group ns : String) :
    genReadQuery X listColumns Obj.toRow Obj.newer ((groupFilter group).where "namespace_name" (.eq ns)) =
      .ok { clause := some fun o => o.labelled group && decide (o.namespace_ = ns), le := Obj.newer, limit := some 100,
            offset := 0 } := by
  have hrow : ∀ o : Obj, onJson (fun j => j.contains (.obj [("io.nanocl.group", .str group)])) (o.toRow "metadata") =
      o.labelled group := by
    intro o
    cases hm : o.metadata <;> simp [Obj.toRow, Obj.labelled, onJson, hm]
  simp [genReadQuery, readOrder, genSqlQuery, groupFilter, GenericFilter.where, GenericFilter.new, Conditions.insert,
    genSqlWhere, genSqlWhere4string, genSqlWhere4json, filterBy, jsonClause, stringClause, Where.filter, listColumns,
    Columns.get, hrow, onText]
  rfl

/-- a listing of `remove_orphans` fails, or returns the newest 100 of the labelled objects -/
theorem list_eq (kind : ObjKind) (group ns : String) (d : Daemon) : list E kind (groupFilter group) ns d =
    match listError E kind ns d with
    | some e => .error e
    | none => .ok (newestLabelled kind group ns d) := by
  unfold list listError
  cases hfault : E.listing kind with
  | some e => rfl
  | none =>
    cases hnsp : kind.namespaced with
    | false =>
      have hin : ∀ o : Obj, o.isIn kind ns = true := fun o => by simp [Obj.isIn, hnsp]
      simp [genReadQuery_group, newestLabelled, Query.run, hin, pure, Except.pure, bind, Except.bind]
      rfl
    | true =>
      have hin : ∀ o : Obj, o.isIn kind ns = decide (o.namespace_ = ns) := fun o => by simp [Obj.isIn, hnsp]
      by_cases hmem : ns ∈ d.namespaces
      · simp [hmem, genReadQuery_groupNamespace, newestLabelled, Query.run, hin, pure, Except.pure, bind, Except.bind]
        rfl
      · simp [hmem, throw, throwThe, MonadExceptOf.throw, bind, Except.bind]

variable {δ : Type}

/-- the sections that `remove_orphans` hands on where its listings succeed -/
def kept (state : StateRef δ) (d : Daemon) : Sections
  | .job => state.data.sections .job
  | kind => removedSection state kind
      (newestLabelled kind (getNanoclGroup state) (state.data.namespace_.getD "global") d)

/-- the listings of `remove_orphans` succeed -/
def Lists (E : RmEnv) (ns : String) (d : Daemon) : Prop := ∀ kind ≠ .job, listError E kind ns d = none

theorem removeOrphans_lists {state : StateRef δ} {d : Daemon} (h : Lists E (state.data.namespace_.getD "global") d) :
    removeOrphans E state d = stateRemove E state.data.namespace_ (kept state d) d := by
  have hsecret := h .secret (by decide)
  have hcargo := h .cargo (by decide)
  have hvm := h .vm (by decide)
  have hresource := h .resource (by decide)
  simp only [removeOrphans, list_eq, hsecret, hcargo, hvm, hresource]
  change stateRemove E _ _ d = _
  congr 1
  funext kind
  cases kind <;> rfl

theorem removeOrphans_fails {state : StateRef δ} {d : Daemon} (h : ¬ Lists E (state.data.namespace_.getD "global") d) :
    (removeOrphans E state d).2 = d := by
  simp only [removeOrphans, list_eq]
  cases hsecret : listError E .secret (state.data.namespace_.getD "global") d with
  | some e => rfl
  | none =>
    cases hcargo : listError E .cargo (state.data.namespace_.getD "global") d with
    | some e => rfl
    | none =>
      cases hvm : listError E .vm (state.data.namespace_.getD "global") d with
      | some e => rfl
      | none =>
        cases hresource : listError E .resource (state.data.namespace_.getD "global") d with
        | some e => rfl
        | none =>
          refine absurd (fun kind hkind => ?_) h
          cases kind with
          | job => exact absurd rfl hkind
          | secret => exact hsecret
          | cargo => exact hcargo
          | vm => exact hvm
          | resource => exact hresource

end Listed

/-! ## What is deleted -/

section Deleted

/-- the daemon without the objects of these keys -/
def Daemon.drop (d : Daemon) (gone : ObjKind → List String) : Daemon :=
  d.without fun kind o => (gone kind).contains (o.pk kind)

/-- these keys of one kind -/
def only (kind : ObjKind) (keys : List String) : ObjKind → List String :=
  fun k => if k = kind then keys else []

theorem Daemon.drop_nil (d : Daemon) : d.drop (fun _ => []) = d := by
  have h : ∀ kind, (d.objects kind).deleteWhere (fun o => ([] : List String).contains (o.pk kind)) =
      d.objects kind := fun kind => Table.deleteWhere_of_forall fun _ _ => rfl
  simp only [Daemon.drop, Daemon.without, h]

theorem Daemon.drop_drop (d : Daemon) (gone gone' : ObjKind → List String) :
    (d.drop gone).drop gone' = d.drop fun kind => gone kind ++ gone' kind := by
  have h : ∀ kind, ((d.objects kind).deleteWhere fun o => (gone kind).contains (o.pk kind)).deleteWhere
      (fun o => (gone' kind).contains (o.pk kind)) =
      (d.objects kind).deleteWhere fun o => (gone kind ++ gone' kind).contains (o.pk kind) := by
    intro kind
    ext1
    simp only [Table.deleteWhere, List.filter_filter]
    refine List.filter_congr fun o _ => ?_
    simp [List.contains_eq_mem, Bool.and_comm]
  simp only [Daemon.drop, Daemon.without, h]

theorem Daemon.find_drop (d : Daemon) (gone : ObjKind → List String) (kind : ObjKind) (key : String) :
    ((d.drop gone).objects kind).find key = if key ∈ gone kind then none else (d.objects kind).find key := by
  change ((d.objects kind).deleteWhere _).find key = _
  rw [Table.find_deleteWhere]
  cases hfind : (d.objects kind).find key with
  | none => split_ifs <;> rfl
  | some o =>
    have hkey := Table.key_of_find hfind
    by_cases hmem : key ∈ gone kind <;> simp [hkey, hmem]

variable {E : RmEnv} {kind : ObjKind} {ns : String} {d : Daemon}

/-- the daemon accepts the deletion of the name -/
structure Deletable (E : RmEnv) (kind : ObjKind) (ns name : String) (d : Daemon) : Prop where
  stored : (d.objects kind).find (target kind ns name) ≠ none
  accepted : E.refusal kind (target kind ns name) = none

theorem deleteObj_of_deletable {name : String} (h : Deletable E kind ns name d) :
    deleteObj E kind ns name d = some (d.drop (only kind [target kind ns name])) := by
  obtain ⟨o, ho⟩ := Option.ne_none_iff_exists'.1 h.stored
  simp only [deleteObj, ho, h.accepted, Option.some.injEq, Daemon.drop, Daemon.without, Daemon.mk.injEq, true_and]
  funext k
  by_cases hk : k = kind
  · subst hk
    rw [Function.update_self]
    ext1
    simp [Table.delete, Table.deleteWhere, only, List.contains_eq_mem]
  · rw [Function.update_of_ne hk]
    exact (Table.deleteWhere_of_forall fun _ _ => by simp [only, hk]).symm

theorem deleteObj_eq_none {name : String} (h : ¬ Deletable E kind ns name d) : deleteObj E kind ns name d = none := by
  cases hfind : (d.objects kind).find (target kind ns name) with
  | none => simp [deleteObj, hfind]
  | some o =>
    cases hr : E.refusal kind (target kind ns name) with
    | some e => simp [deleteObj, hfind, hr]
    | none => exact absurd ⟨by simp [hfind], hr⟩ h

theorem target_inj {n m : String} (h : target kind ns n = target kind ns m) : n = m := by
  cases kind with
  | cargo | vm => exact Sync.genKey_inj h
  | secret | job | resource => exact h

variable (E kind ns) in
/-- only keys that were asked for are deleted -/
theorem execRm_sub (names : List String) (d : Daemon) : ∃ keys, (∀ key ∈ keys, ∃ n ∈ names, key = target kind ns n ∧
    E.refusal kind key = none) ∧ (execRm E kind ns names d).2 = d.drop (only kind keys) := by
  induction names generalizing d with
  | nil =>
    refine ⟨[], by simp, ?_⟩
    have h : only kind [] = fun _ => [] := funext fun k => by simp [only]
    rw [h, Daemon.drop_nil]
    rfl
  | cons name names ih =>
    by_cases hdel : Deletable E kind ns name d
    · have hone : ∃ keys, (∀ key ∈ keys, ∃ n ∈ name :: names, key = target kind ns n ∧ E.refusal kind key = none) ∧
          d.drop (only kind [target kind ns name]) = d.drop (only kind keys) :=
        ⟨_, fun key hkey => ⟨name, List.mem_cons_self, List.mem_singleton.1 hkey,
          List.mem_singleton.1 hkey ▸ hdel.accepted⟩, rfl⟩
      rw [execRm, deleteObj_of_deletable hdel]
      cases awaited E kind name with
      | err | stuck => exact hone
      | ok =>
        obtain ⟨keys, hkeys, heq⟩ := ih (d.drop (only kind [target kind ns name]))
        refine ⟨target kind ns name :: keys, fun key hkey => ?_, ?_⟩
        · rcases List.mem_cons.1 hkey with rfl | hkey
          · exact ⟨name, List.mem_cons_self, rfl, hdel.accepted⟩
          · obtain ⟨n, hn, h⟩ := hkeys key hkey
            exact ⟨n, List.mem_cons_of_mem _ hn, h⟩
        · refine heq.trans ?_
          rw [Daemon.drop_drop]
          congr 1
          funext k
          by_cases hk : k = kind <;> simp [only, hk]
    · rw [execRm, deleteObj_eq_none hdel]
      obtain ⟨keys, hkeys, heq⟩ := ih d
      refine ⟨keys, fun key hkey => ?_, heq⟩
      obtain ⟨n, hn, h⟩ := hkeys key hkey
      exact ⟨n, List.mem_cons_of_mem _ hn, h⟩

/-- names that cannot be deleted are skipped -/
theorem execRm_skips {names : List String} (h : ∀ n ∈ names, ¬ Deletable E kind ns n d) :
    execRm E kind ns names d = (.ok, d) := by
  induction names with
  | nil => rfl
  | cons name names ih =>
    rw [execRm, deleteObj_eq_none (h name List.mem_cons_self)]
    exact ih fun n hn => h n (List.mem_cons_of_mem _ hn)

/-- the first name that can be deleted is -/
theorem execRm_deletes {names : List String} {n : String} (hn : n ∈ names) (hdel : Deletable E kind ns n d) :
    ∃ m ∈ names, Deletable E kind ns m d ∧ ((execRm E kind ns names d).2.objects kind).find (target kind ns m) = none := by
  induction names with
  | nil => cases hn
  | cons name names ih =>
    by_cases hfirst : Deletable E kind ns name d
    · refine ⟨name, List.mem_cons_self, hfirst, ?_⟩
      have hgone : ∀ gone, (((d.drop (only kind [target kind ns name])).drop gone).objects kind).find
          (target kind ns name) = none := fun gone => by
        rw [Daemon.drop_drop, Daemon.find_drop, if_pos (by simp [only])]
      rw [execRm, deleteObj_of_deletable hfirst]
      cases awaited E kind name with
      | ok =>
        obtain ⟨keys, -, heq⟩ := execRm_sub E kind ns names (d.drop (only kind [target kind ns name]))
        dsimp only
        rw [heq]
        exact hgone _
      | err | stuck =>
        have h := hgone fun _ => []
        rwa [Daemon.drop_nil] at h
    · rw [execRm, deleteObj_eq_none hfirst]
      have hne : n ≠ name := fun h => hfirst (h ▸ hdel)
      obtain ⟨m, hm, h⟩ := ih ((List.mem_cons.1 hn).resolve_left hne)
      exact ⟨m, List.mem_cons_of_mem _ hm, h⟩

/-- a name that is not among the deleted ones can still be deleted -/
theorem Deletable.drop {name : String} {names : List String} (h : Deletable E kind ns name d) (hname : name ∉ names) :
    Deletable E kind ns name (d.drop (only kind (names.map (target kind ns)))) := by
  refine ⟨?_, h.accepted⟩
  rw [Daemon.find_drop, if_neg]
  · exact h.stored
  · simp only [only, if_true, List.mem_map, not_exists, not_and]
    exact fun m hm heq => hname (target_inj heq ▸ hm)

/-- deletions that all succeed, with waits that all do, leave the rest to do -/
theorem execRm_append (rest : List String) {names : List String} (hnodup : names.Nodup)
    (hdel : ∀ n ∈ names, Deletable E kind ns n d) (hok : ∀ n ∈ names, awaited E kind n = .ok) :
    execRm E kind ns (names ++ rest) d = execRm E kind ns rest (d.drop (only kind (names.map (target kind ns)))) := by
  induction names generalizing d with
  | nil =>
    have h : only kind [] = fun _ => [] := funext fun k => by simp [only]
    rw [List.map_nil, h, Daemon.drop_nil]
    rfl
  | cons name names ih =>
    obtain ⟨hname, hnodup⟩ := List.nodup_cons.1 hnodup
    have hrest : ∀ n ∈ names, Deletable E kind ns n (d.drop (only kind ([name].map (target kind ns)))) := fun n hn =>
      (hdel n (List.mem_cons_of_mem _ hn)).drop fun h => hname (List.mem_singleton.1 h ▸ hn)
    have hih := ih hnodup hrest fun n hn => hok n (List.mem_cons_of_mem _ hn)
    rw [List.cons_append, execRm, deleteObj_of_deletable (hdel name List.mem_cons_self), hok name List.mem_cons_self]
    refine hih.trans ?_
    rw [Daemon.drop_drop]
    congr 2
    funext k
    by_cases hk : k = kind <;> simp [only, hk]

variable (E kind) in
/-- all the waits return success, or one is the first that does not -/
theorem waits_cases (names : List String) : (∀ n ∈ names, awaited E kind n = .ok) ∨
    ∃ pre n post, names = pre ++ n :: post ∧ (∀ m ∈ pre, awaited E kind m = .ok) ∧ awaited E kind n ≠ .ok := by
  induction names with
  | nil => exact .inl fun n hn => by cases hn
  | cons name names ih =>
    by_cases hname : awaited E kind name = .ok
    · rcases ih with h | ⟨pre, n, post, rfl, hpre, hn⟩
      · exact .inl (List.forall_mem_cons.2 ⟨hname, h⟩)
      · exact .inr ⟨name :: pre, n, post, rfl, List.forall_mem_cons.2 ⟨hname, hpre⟩, hn⟩
    · exact .inr ⟨[], name, names, rfl, by simp, hname⟩

/-- a wait that does not return success is the last of its kind -/
theorem execRm_stops {pre post : List String} {n : String} (hnodup : (pre ++ n :: post).Nodup)
    (hdel : ∀ m ∈ pre ++ n :: post, Deletable E kind ns m d) (hpre : ∀ m ∈ pre, awaited E kind m = .ok)
    (hn : awaited E kind n ≠ .ok) : execRm E kind ns (pre ++ n :: post) d =
      (awaited E kind n, d.drop (only kind ((pre ++ [n]).map (target kind ns)))) := by
  have hnotin : n ∉ pre := fun h => (List.nodup_append.1 hnodup).2.2 n h n List.mem_cons_self rfl
  rw [execRm_append _ (hnodup.sublist (List.sublist_append_left ..)) (fun m hm => hdel m (List.mem_append_left _ hm)) hpre,
    execRm, deleteObj_of_deletable ((hdel n (by simp)).drop hnotin), Daemon.drop_drop]
  have hkeys : (fun k => only kind (pre.map (target kind ns)) k ++ only kind [target kind ns n] k) =
      only kind ((pre ++ [n]).map (target kind ns)) := by
    funext k
    by_cases hk : k = kind <;> simp [only, hk]
  rw [hkeys]
  cases hw : awaited E kind n with
  | ok => exact absurd hw hn
  | err | stuck => rfl

/-! ### Sections -/

variable {sections : Sections}

/-- what the sections ask for, in the order it is asked for -/
def requests (sections : Sections) (kinds : List ObjKind) : List (ObjKind × String) :=
  kinds.flatMap fun kind => ((sections kind).getD []).map fun name => (kind, name)

/-- the second deletion comes after the first one: the first is waited for with success, or the second is of another kind
and the wait returns -/
def Follows (E : RmEnv) (r r' : ObjKind × String) : Prop :=
  awaited E r.1 r.2 = .ok ∨ awaited E r.1 r.2 = .err ∧ r'.1 ≠ r.1

variable (E ns sections) in
theorem removeSections_sub (kinds : List ObjKind) (d : Daemon) : ∃ gone, (∀ kind, ∀ key ∈ gone kind, kind ∈ kinds ∧
    ∃ names, sections kind = some names ∧ ∃ n ∈ names, key = target kind ns n ∧ E.refusal kind key = none) ∧
    (removeSections E ns sections kinds d).2 = d.drop gone := by
  induction kinds generalizing d with
  | nil => exact ⟨fun _ => [], by simp, (Daemon.drop_nil d).symm⟩
  | cons kind kinds ih =>
    cases hs : sections kind with
    | none =>
      obtain ⟨gone, hgone, heq⟩ := ih d
      refine ⟨gone, fun k key hkey => ⟨List.mem_cons_of_mem _ (hgone k key hkey).1, (hgone k key hkey).2⟩, ?_⟩
      rw [removeSections, hs]
      exact heq
    | some names =>
      obtain ⟨keys, hkeys, hrm⟩ := execRm_sub E kind ns names d
      have hown : ∀ k, ∀ key ∈ only kind keys k, k ∈ kind :: kinds ∧
          ∃ names, sections k = some names ∧ ∃ n ∈ names, key = target k ns n ∧ E.refusal k key = none := by
        intro k key hkey
        by_cases hk : k = kind
        · subst hk
          exact ⟨List.mem_cons_self, names, hs, hkeys key (by simpa [only] using hkey)⟩
        · simp [only, hk] at hkey
      rw [removeSections, hs]
      dsimp only
      rcases hrun : execRm E kind ns names d with ⟨ended, d₁⟩
      rw [hrun] at hrm
      obtain rfl : d₁ = d.drop (only kind keys) := hrm
      have hrest : ∃ gone, (∀ k, ∀ key ∈ gone k, k ∈ kind :: kinds ∧
          ∃ names, sections k = some names ∧ ∃ n ∈ names, key = target k ns n ∧ E.refusal k key = none) ∧
          (removeSections E ns sections kinds (d.drop (only kind keys))).2 = d.drop gone := by
        obtain ⟨gone, hgone, heq⟩ := ih (d.drop (only kind keys))
        refine ⟨_, fun k key hkey => ?_, heq.trans (Daemon.drop_drop ..)⟩
        rcases List.mem_append.1 hkey with hkey | hkey
        · exact hown k key hkey
        · exact ⟨List.mem_cons_of_mem _ (hgone k key hkey).1, (hgone k key hkey).2⟩
      cases ended with
      | ok | err => exact hrest
      | stuck => exact ⟨_, hown, rfl⟩

/-- requests that are waited for with success may be followed by any other -/
theorem isChain_of_ok {l l' : List (ObjKind × String)} (h : ∀ r ∈ l, awaited E r.1 r.2 = .ok) :
    (l ++ l').IsChain (Follows E) ↔ l'.IsChain (Follows E) := by
  induction l with
  | nil => rfl
  | cons r l ih =>
    rw [List.cons_append, List.isChain_cons, ih fun r' hr' => h r' (List.mem_cons_of_mem _ hr')]
    exact and_iff_right fun r' _ => .inl (h r List.mem_cons_self)

theorem requests_cons {kind : ObjKind} {kinds : List ObjKind} {names : List String} (hs : sections kind = some names) :
    requests sections (kind :: kinds) = names.map (fun name => (kind, name)) ++ requests sections kinds := by
  simp [requests, hs]

theorem requests_cons_none {kind : ObjKind} {kinds : List ObjKind} (hs : sections kind = none) :
    requests sections (kind :: kinds) = requests sections kinds := by
  simp [requests, hs]

theorem mem_requests {kinds : List ObjKind} {r : ObjKind × String} : r ∈ requests sections kinds ↔
    r.1 ∈ kinds ∧ ∃ names, sections r.1 = some names ∧ r.2 ∈ names := by
  obtain ⟨kind, name⟩ := r
  simp only [requests, List.mem_flatMap, List.mem_map, Prod.mk.injEq]
  constructor
  · rintro ⟨k, hk, n, hn, rfl, rfl⟩
    cases hs : sections k with
    | none => simp [hs] at hn
    | some names => exact ⟨hk, names, rfl, by simpa [hs] using hn⟩
  · rintro ⟨hk, names, hs, hn⟩
    exact ⟨kind, hk, name, by simpa [hs] using hn, rfl, rfl⟩

/-- what the sections ask for is gone -/
def Done (ns : String) (sections : Sections) (kinds : List ObjKind) (d : Daemon) : Prop :=
  ∀ r ∈ requests sections kinds, (d.objects r.1).find (target r.1 ns r.2) = none

theorem done_cons {kind : ObjKind} {kinds : List ObjKind} {names : List String} (hs : sections kind = some names)
    {d : Daemon} : Done ns sections (kind :: kinds) d ↔
      (∀ n ∈ names, (d.objects kind).find (target kind ns n) = none) ∧ Done ns sections kinds d := by
  simp only [Done, requests_cons hs, List.forall_mem_append, List.forall_mem_map]

/-- **Where the daemon lets everything be deleted, everything is, exactly if each wait lets the next deletion follow.** -/
theorem removeSections_done_iff {kinds : List ObjKind} (hkinds : kinds.Nodup)
    (hnodup : ∀ kind ∈ kinds, ∀ names, sections kind = some names → names.Nodup)
    (hdel : ∀ kind ∈ kinds, ∀ names, sections kind = some names → ∀ n ∈ names, Deletable E kind ns n d) :
    Done ns sections kinds (removeSections E ns sections kinds d).2 ↔ (requests sections kinds).IsChain (Follows E) := by
  induction kinds generalizing d with
  | nil => exact iff_of_true (fun r hr => by cases hr) List.isChain_nil
  | cons kind kinds ih =>
    obtain ⟨hkind, hkinds⟩ := List.nodup_cons.1 hkinds
    have hnodup' : ∀ k ∈ kinds, ∀ names, sections k = some names → names.Nodup := fun k hk =>
      hnodup k (List.mem_cons_of_mem _ hk)
    -- a deletion of another kind changes nothing for the rest
    have hother : ∀ keys, ∀ k ∈ kinds, ∀ n, Deletable E k ns n d → Deletable E k ns n (d.drop (only kind keys)) := by
      intro keys k hk n h
      have hne : k ≠ kind := fun heq => hkind (heq ▸ hk)
      exact ⟨by rw [Daemon.find_drop, if_neg (by simp [only, hne])]; exact h.stored, h.accepted⟩
    have hrest : ∀ keys, Done ns sections kinds (removeSections E ns sections kinds (d.drop (only kind keys))).2 ↔
        (requests sections kinds).IsChain (Follows E) := fun keys =>
      ih hkinds hnodup' fun k hk names hs n hn => hother keys k hk n (hdel k (List.mem_cons_of_mem _ hk) names hs n hn)
    -- the rest does not touch the kind
    have hfind : ∀ (d₁ : Daemon) key, ((removeSections E ns sections kinds d₁).2.objects kind).find key =
        (d₁.objects kind).find key := by
      intro d₁ key
      obtain ⟨gone, hgone, heq⟩ := removeSections_sub E ns sections kinds d₁
      rw [heq, Daemon.find_drop, if_neg fun hkey => hkind (hgone kind key hkey).1]
    cases hs : sections kind with
    | none =>
      have hself := hrest []
      have hnil : only kind [] = fun _ => [] := funext fun k => by simp [only]
      rw [hnil, Daemon.drop_nil] at hself
      rw [removeSections, hs, Done, requests_cons_none hs]
      exact hself
    | some names =>
      have hdelNames := hdel kind List.mem_cons_self names hs
      have hnodupNames := hnodup kind List.mem_cons_self names hs
      rw [done_cons hs, requests_cons hs, removeSections, hs]
      dsimp only
      rcases waits_cases E kind names with hok | ⟨pre, n, post, rfl, hpre, hn⟩
      · have hrun := execRm_append [] hnodupNames hdelNames hok
        rw [List.append_nil] at hrun
        have hchain : ∀ r ∈ names.map fun name => (kind, name), awaited E r.1 r.2 = .ok := by simpa using hok
        rw [hrun, isChain_of_ok hchain, ← hrest (names.map (target kind ns))]
        refine and_iff_right fun n hn => ?_
        change ((removeSections E ns sections kinds _).2.objects kind).find _ = none
        rw [hfind, Daemon.find_drop, if_pos (by simpa [only] using ⟨n, hn, rfl⟩)]
      · have hrun := execRm_stops hnodupNames hdelNames hpre hn
        set d₁ := d.drop (only kind ((pre ++ [n]).map (target kind ns))) with hd₁
        rw [hrun]
        -- the rest runs, or does not
        have hfinal : ∀ key, ((match (awaited E kind n, d₁) with
            | (.stuck, d') => ((.stuck, d') : Ended × Daemon)
            | (_, d') => removeSections E ns sections kinds d').2.objects kind).find key = (d₁.objects kind).find key := by
          intro key
          cases awaited E kind n with
          | ok | err => exact hfind d₁ key
          | stuck => rfl
        have hchain : ((pre ++ n :: post).map (fun name => (kind, name)) ++ requests sections kinds).IsChain (Follows E) ↔
            (∀ y ∈ (post.map (fun name => (kind, name)) ++ requests sections kinds).head?, Follows E (kind, n) y) ∧
              (post.map (fun name => (kind, name)) ++ requests sections kinds).IsChain (Follows E) := by
          have hpre' : ∀ r ∈ pre.map fun name => (kind, name), awaited E r.1 r.2 = .ok := by simpa using hpre
          rw [List.map_append, List.map_cons, List.append_assoc, List.cons_append, isChain_of_ok hpre', List.isChain_cons]
        rw [hchain]
        cases post with
        | cons m post =>
          have hm : m ∉ pre ++ [n] := by
            intro hmem
            have hpart := (List.append_assoc pre [n] (m :: post)).symm ▸ hnodupNames
            exact (List.nodup_append.1 hpart).2.2 m hmem m List.mem_cons_self rfl
          refine iff_of_false (fun h => ?_) fun h => ?_
          · have hgone := h.1 m (by simp)
            rw [hfinal] at hgone
            exact ((hdelNames m (by simp)).drop hm).stored hgone
          · rcases h.1 (kind, m) rfl with hok | ⟨-, hne⟩
            · exact hn hok
            · exact hne rfl
        | nil =>
          have hdone : ∀ m ∈ pre ++ [n], (d₁.objects kind).find (target kind ns m) = none := fun m hm => by
            have hkey : target kind ns m ∈ only kind ((pre ++ [n]).map (target kind ns)) kind := by
              simpa only [only, if_true] using List.mem_map_of_mem hm
            rw [hd₁, Daemon.find_drop, if_pos hkey]
          refine (and_iff_right fun m hm => (hfinal _).trans (hdone m hm)).trans ?_
          rw [List.map_nil, List.nil_append]
          cases hw : awaited E kind n with
          | ok => exact absurd hw hn
          | err =>
            rw [← hrest ((pre ++ [n]).map (target kind ns))]
            refine (and_iff_right fun y hy => .inr ⟨hw, fun heq => ?_⟩).symm
            have hmem := (mem_requests.1 (List.mem_of_mem_head? hy)).1
            rw [heq] at hmem
            exact hkind hmem
          | stuck =>
            cases hreq : requests sections kinds with
            | nil =>
              refine iff_of_true (fun r hr => ?_) ⟨fun y (hy : y ∈ none) => (Option.not_mem_none y hy).elim, List.isChain_nil⟩
              rw [hreq] at hr
              cases hr
            | cons y rest =>
              have hy : y ∈ requests sections kinds := hreq ▸ List.mem_cons_self
              obtain ⟨hyk, names', hs', hn'⟩ := mem_requests.1 hy
              refine iff_of_false (fun h => ?_) fun h => ?_
              · have hstored := hother ((pre ++ [n]).map (target kind ns)) y.1 hyk y.2
                  (hdel y.1 (List.mem_cons_of_mem _ hyk) names' hs' y.2 hn')
                exact hstored.stored (h y hy)
              · rcases h.1 y rfl with hok | ⟨herr, -⟩
                · exact hn hok
                · rw [hw] at herr
                  cases herr

end Deleted

/-! ## Orphans -/

section Orphans

variable {δ : Type} {E : RmEnv} {state : StateRef δ} {d : Daemon}

/-- the namespace of a state -/
def StateRef.namespace_ (state : StateRef δ) : String := state.data.namespace_.getD "global"

/-- the orphans among the newest 100 objects of the group, in the order they are listed -/
def dueOrphans (state : StateRef δ) (d : Daemon) (kind : ObjKind) : List String :=
  ((newestLabelled kind (getNanoclGroup state) state.namespace_ d).filter (orphan state kind)).map (·.name)

/-- each orphan is in a section that the state has, among the newest 100 objects of its group, and may be deleted; the
names of the orphans lead to all their keys; no orphan is a job and no declared job may be deleted; and each wait lets the
next deletion follow -/
structure Removable (E : RmEnv) (state : StateRef δ) (d : Daemon) : Prop where
  lists : Lists E state.namespace_ d ∨ ∀ kind, ∀ o ∈ (d.objects kind).rows, orphan state kind o = false
  jobs : ∀ o ∈ (d.objects .job).rows, orphan state .job o = false
  declared : Lists E state.namespace_ d → ∀ name ∈ (state.data.sections .job).getD [],
    ¬ Deletable E .job state.namespace_ name d
  orphans : Lists E state.namespace_ d → ∀ kind ≠ .job, ∀ o ∈ (d.objects kind).rows, orphan state kind o = true →
    (state.data.sections kind).isSome ∧ o ∈ newestLabelled kind (getNanoclGroup state) state.namespace_ d ∧
      (∃ o' ∈ (d.objects kind).rows, orphan state kind o' = true ∧ target kind state.namespace_ o'.name = o.pk kind) ∧
        E.refusal kind (o.pk kind) = none
  waits : Lists E state.namespace_ d →
    (requests (fun kind => some (dueOrphans state d kind)) [.cargo, .vm, .resource, .secret]).IsChain (Follows E)

theorem mem_newestLabelled {kind : ObjKind} {group ns : String} {o : Obj} (h : o ∈ newestLabelled kind group ns d) :
    o ∈ (d.objects kind).rows ∧ o.labelled group = true ∧ o.isIn kind ns = true := by
  have hsort := (List.perm_insertionSort _ _).mem_iff.1 (List.mem_of_mem_take h)
  simpa using hsort

/-- what is kept in a section are the listed objects that are orphans -/
theorem kept_eq {kind : ObjKind} (hkind : kind ≠ .job) {names : List String} (hk : kept state d kind = some names) :
    names = dueOrphans state d kind := by
  have hsec : removedSection state kind (newestLabelled kind (getNanoclGroup state) state.namespace_ d) = some names := by
    cases kind with
    | job => exact absurd rfl hkind
    | secret | cargo | vm | resource => exact hk
  obtain ⟨declared, hdec, rfl⟩ := Option.map_eq_some_iff.1 hsec
  rw [dueOrphans, List.filter_map]
  congr 1
  refine List.filter_congr fun o ho => ?_
  obtain ⟨-, hlab, hin⟩ := mem_newestLabelled ho
  have hin' : Obj.isIn kind (state.data.namespace_.getD "global") o = true := hin
  simp [orphan, hlab, hin', hdec]

/-- the names of the listed orphans lead to the keys of all orphans -/
def Leads (state : StateRef δ) (d : Daemon) (kind : ObjKind) : Prop :=
  ∀ o ∈ (d.objects kind).rows, orphan state kind o = true → ∃ name ∈ dueOrphans state d kind,
    target kind state.namespace_ name = o.pk kind

/-- **The listed names lead to the orphans, one each**, if they lead to all of them: there are no more names than orphans. -/
theorem Leads.perm {kind : ObjKind} (h : Leads state d kind) :
    ((newestLabelled kind (getNanoclGroup state) state.namespace_ d).filter (orphan state kind)).Perm
        ((d.objects kind).rows.filter (orphan state kind)) ∧
      ((dueOrphans state d kind).map (target kind state.namespace_)).Perm
        (((d.objects kind).rows.filter (orphan state kind)).map (Obj.pk kind)) := by
  set listed := (newestLabelled kind (getNanoclGroup state) state.namespace_ d).filter (orphan state kind) with hlisted
  set orphans := (d.objects kind).rows.filter (orphan state kind) with horphans
  have hkeys : (orphans.map (Obj.pk kind)).Nodup := (d.objects kind).nodup.sublist (List.filter_sublist.map _)
  have hleads : orphans.map (Obj.pk kind) ⊆ (dueOrphans state d kind).map (target kind state.namespace_) := by
    intro key hkey
    obtain ⟨o, ho, rfl⟩ := List.mem_map.1 hkey
    obtain ⟨name, hname, heq⟩ := h o (List.mem_filter.1 ho).1 (List.mem_filter.1 ho).2
    exact heq ▸ List.mem_map_of_mem hname
  have hrows : (newestLabelled kind (getNanoclGroup state) state.namespace_ d).Nodup := by
    refine List.Nodup.sublist (List.take_sublist _ _) ((List.perm_insertionSort _ _).nodup_iff.2 ?_)
    exact (List.Nodup.of_map _ (d.objects kind).nodup).filter _
  have hsub : listed.Subperm orphans := (hrows.filter _).subperm fun o ho =>
    List.mem_filter.2 ⟨(mem_newestLabelled (List.mem_filter.1 ho).1).1, (List.mem_filter.1 ho).2⟩
  have hle := (hkeys.subperm hleads).length_le
  rw [List.length_map, List.length_map, dueOrphans, List.length_map] at hle
  refine ⟨hsub.perm_of_length_le hle, ((hkeys.subperm hleads).perm_of_length_le ?_).symm⟩
  rw [List.length_map, List.length_map, dueOrphans, List.length_map]
  exact hsub.length_le

theorem Leads.listed {kind : ObjKind} (h : Leads state d kind) {o : Obj} (ho : o ∈ (d.objects kind).rows)
    (horph : orphan state kind o = true) : o ∈ newestLabelled kind (getNanoclGroup state) state.namespace_ d :=
  (List.mem_filter.1 (h.perm.1.mem_iff.2 (List.mem_filter.2 ⟨ho, horph⟩))).1

theorem Leads.nodup {kind : ObjKind} (h : Leads state d kind) : (dueOrphans state d kind).Nodup := by
  refine List.Nodup.of_map (target kind state.namespace_) (h.perm.2.nodup_iff.2 ?_)
  exact (d.objects kind).nodup.sublist (List.filter_sublist.map _)

/-- what is asked for are the orphans that are listed, if their sections are there -/
theorem requests_kept (h : ∀ kind ≠ .job, ∀ o ∈ (d.objects kind).rows, orphan state kind o = true →
      (state.data.sections kind).isSome) :
    requests (kept state d) [.cargo, .vm, .resource, .secret] =
      requests (fun kind => some (dueOrphans state d kind)) [.cargo, .vm, .resource, .secret] := by
  have heq : ∀ kind ≠ .job, (kept state d kind).getD [] = dueOrphans state d kind := by
    intro kind hkind
    cases hk : kept state d kind with
    | some names => exact kept_eq hkind hk
    | none =>
      have hsec : state.data.sections kind = none := by
        cases kind with
        | job => exact absurd rfl hkind
        | secret | cargo | vm | resource => exact Option.map_eq_none_iff.1 hk
      refine (List.map_eq_nil_iff.2 (List.filter_eq_nil_iff.2 fun o ho horph => ?_)).symm
      have hsome := h kind hkind o (mem_newestLabelled ho).1 horph
      rw [hsec] at hsome
      cases hsome
  simp [requests, heq]

theorem find_without (p : ObjKind → Obj → Bool) {kind : ObjKind} {o : Obj} (ho : o ∈ (d.objects kind).rows) :
    ((d.without p).objects kind).find (o.pk kind) = none ↔ p kind o = true := by
  change ((d.objects kind).deleteWhere (p kind)).find _ = none ↔ _
  rw [Table.find_deleteWhere, Table.find_of_mem ho]
  cases hp : p kind o <;> simp [hp]

theorem without_congr {p q : ObjKind → Obj → Bool} (h : ∀ kind, ∀ o ∈ (d.objects kind).rows, p kind o = q kind o) :
    d.without p = d.without q := by
  have heq : ∀ kind, (d.objects kind).deleteWhere (p kind) = (d.objects kind).deleteWhere (q kind) := by
    intro kind
    ext1
    exact List.filter_congr fun o ho => by rw [h kind o ho]
  simp only [Daemon.without, heq]

/-- jobs that may not be deleted leave the other sections to remove -/
theorem stateRemove_skipsJobs (h : ∀ name ∈ (state.data.sections .job).getD [], ¬ Deletable E .job state.namespace_ name d) :
    (stateRemove E state.data.namespace_ (kept state d) d).2 =
      (removeSections E state.namespace_ (kept state d) [.cargo, .vm, .resource, .secret] d).2 := by
  change (removeSections E state.namespace_ (kept state d) (.job :: [.cargo, .vm, .resource, .secret]) d).2 = _
  cases hs : kept state d .job with
  | none => rw [removeSections, hs]
  | some names =>
    have hs' : state.data.sections .job = some names := hs
    rw [removeSections, hs]
    dsimp only
    rw [execRm_skips fun name hname => h name (by simpa [hs'] using hname)]

/-- an orphan that is gone is in a section that the state has, some listed name led to it, and it could be deleted -/
theorem kept_of_gone {gone : ObjKind → List String} {kinds : List ObjKind}
    (hgone : ∀ kind, ∀ key ∈ gone kind, kind ∈ kinds ∧ ∃ names, kept state d kind = some names ∧
      ∃ n ∈ names, key = target kind state.namespace_ n ∧ E.refusal kind key = none)
    {kind : ObjKind} (hkind : kind ≠ .job) {o : Obj} (hkey : o.pk kind ∈ gone kind) :
    (state.data.sections kind).isSome ∧
      (∃ name ∈ dueOrphans state d kind, target kind state.namespace_ name = o.pk kind) ∧ E.refusal kind (o.pk kind) = none := by
  obtain ⟨-, names, hk, n, hn, heq, hrefusal⟩ := hgone kind _ hkey
  have hsec : (state.data.sections kind).isSome := by
    cases kind with
    | job => exact absurd rfl hkind
    | secret | cargo | vm | resource =>
      obtain ⟨declared, hdec, -⟩ := Option.map_eq_some_iff.1 hk
      rw [hdec]
      rfl
  exact ⟨hsec, ⟨n, kept_eq hkind hk ▸ hn, heq.symm⟩, hrefusal⟩

/-- each name that is kept leads to an orphan -/
theorem orphan_of_kept {kind : ObjKind} (hkind : kind ≠ .job) (hleads : Leads state d kind) {names : List String}
    (hk : kept state d kind = some names) {n : String} (hn : n ∈ names) :
    ∃ o ∈ (d.objects kind).rows, orphan state kind o = true ∧ target kind state.namespace_ n = o.pk kind := by
  rw [kept_eq hkind hk] at hn
  obtain ⟨o, ho, heq⟩ := List.mem_map.1 (hleads.perm.2.mem_iff.1 (List.mem_map_of_mem hn))
  exact ⟨o, (List.mem_filter.1 ho).1, (List.mem_filter.1 ho).2, heq.symm⟩

/-- the names that are kept can be deleted if the orphans can -/
theorem deletable_of_kept {kind : ObjKind} (hkind : kind ≠ .job) (hleads : Leads state d kind)
    (h : ∀ o ∈ (d.objects kind).rows, orphan state kind o = true → E.refusal kind (o.pk kind) = none) {names : List String}
    (hk : kept state d kind = some names) {n : String} (hn : n ∈ names) : Deletable E kind state.namespace_ n d := by
  obtain ⟨o, ho, horph, htarget⟩ := orphan_of_kept hkind hleads hk hn
  refine ⟨?_, ?_⟩
  · rw [htarget, Table.find_of_mem ho]
    exact Option.some_ne_none o
  · rw [htarget]
    exact h o ho horph

theorem removable_of_removed (h : (removeOrphans E state d).2 = d.without (orphan state)) : Removable E state d := by
  have hgone : ∀ kind, ∀ o ∈ (d.objects kind).rows,
      (((removeOrphans E state d).2.objects kind).find (o.pk kind) = none ↔ orphan state kind o = true) := by
    intro kind o ho
    rw [h]
    exact find_without (orphan state) ho
  by_cases hlists : Lists E state.namespace_ d
  swap
  · have hnone : ∀ kind, ∀ o ∈ (d.objects kind).rows, orphan state kind o = false := by
      intro kind o ho
      have hstored := (hgone kind o ho).not
      rw [removeOrphans_fails hlists, Table.find_of_mem ho] at hstored
      simpa using hstored
    exact ⟨.inr hnone, hnone .job, fun hl => absurd hl hlists, fun hl => absurd hl hlists, fun hl => absurd hl hlists⟩
  rw [removeOrphans_lists hlists] at h hgone
  obtain ⟨gone, hsub, hrun⟩ := removeSections_sub E state.namespace_ (kept state d)
    [.job, .cargo, .vm, .resource, .secret] d
  change (stateRemove E state.data.namespace_ (kept state d) d).2 = _ at hrun
  have hkey : ∀ kind, ∀ o ∈ (d.objects kind).rows, orphan state kind o = true → o.pk kind ∈ gone kind := by
    intro kind o ho horph
    have hnone := (hgone kind o ho).2 horph
    rw [hrun, Daemon.find_drop, Table.find_of_mem ho] at hnone
    by_contra hno
    rw [if_neg hno] at hnone
    cases hnone
  have horphans : ∀ kind ≠ .job, ∀ o ∈ (d.objects kind).rows, orphan state kind o = true →
      (state.data.sections kind).isSome ∧
        (∃ name ∈ dueOrphans state d kind, target kind state.namespace_ name = o.pk kind) ∧ E.refusal kind (o.pk kind) = none :=
    fun kind hkind o ho horph => kept_of_gone hsub hkind (hkey kind o ho horph)
  have hleads : ∀ kind ≠ .job, Leads state d kind := fun kind hkind o ho horph => (horphans kind hkind o ho horph).2.1
  have hdeclared : ∀ name ∈ (state.data.sections .job).getD [], ¬ Deletable E .job state.namespace_ name d := by
    intro name hname hdel
    cases hs : state.data.sections .job with
    | none => simp [hs] at hname
    | some names =>
      have hs' : kept state d .job = some names := hs
      have hname' : name ∈ names := by simpa [hs] using hname
      obtain ⟨m, hm, hdelm, hnone⟩ := execRm_deletes hname' hdel
      -- a declared job that is deleted stays deleted, and is no orphan
      obtain ⟨o, ho⟩ := Option.ne_none_iff_exists'.1 hdelm.stored
      obtain ⟨hmem, hpk⟩ := Table.find_eq_some.1 ho
      have hstays : ((stateRemove E state.data.namespace_ (kept state d) d).2.objects .job).find (o.pk .job) = none := by
        change ((removeSections E state.namespace_ (kept state d) (.job :: [.cargo, .vm, .resource, .secret]) d).2.objects
          .job).find (o.pk .job) = none
        rw [removeSections, hs', hpk]
        dsimp only
        rcases hrm : execRm E .job state.namespace_ names d with ⟨ended, d₁⟩
        rw [hrm] at hnone
        have hlater : ((removeSections E state.namespace_ (kept state d) [.cargo, .vm, .resource, .secret] d₁).2.objects
            .job).find (target .job state.namespace_ m) = none := by
          obtain ⟨gone₁, -, heq⟩ := removeSections_sub E state.namespace_ (kept state d)
            [.cargo, .vm, .resource, .secret] d₁
          rw [heq, Daemon.find_drop, hnone]
          split_ifs <;> rfl
        cases ended with
        | ok | err => exact hlater
        | stuck => exact hnone
      have horph := (hgone .job o hmem).1 hstays
      have hm' : o.name = m := hpk
      simp [orphan, hs, hm', hm] at horph
  refine ⟨.inl hlists, fun o ho => ?_, fun _ => hdeclared, fun _ kind hkind o ho horph => ?_, fun _ => ?_⟩
  · by_contra hno
    have horph : orphan state .job o = true := by simpa using hno
    obtain ⟨-, names, hk, n, hn, heq, -⟩ := hsub .job _ (hkey .job o ho horph)
    have hk' : state.data.sections .job = some names := hk
    have hn' : o.name = n := heq
    simp [orphan, hk', hn', hn] at horph
  · obtain ⟨hsec, ⟨name, hname, heq⟩, hrefusal⟩ := horphans kind hkind o ho horph
    obtain ⟨o', ho', rfl⟩ := List.mem_map.1 hname
    exact ⟨hsec, (hleads kind hkind).listed ho horph, ⟨o', (mem_newestLabelled (List.mem_filter.1 ho').1).1,
      (List.mem_filter.1 ho').2, heq⟩, hrefusal⟩
  · have hkinds : ∀ kind ∈ [ObjKind.cargo, .vm, .resource, .secret], kind ≠ .job := by decide
    have hdel : ∀ kind ≠ .job, ∀ names, kept state d kind = some names → ∀ n ∈ names,
        Deletable E kind state.namespace_ n d := fun kind hkind names hk n hn =>
      deletable_of_kept hkind (hleads kind hkind) (fun o ho horph => (horphans kind hkind o ho horph).2.2) hk hn
    rw [← requests_kept fun kind hkind o ho horph => (horphans kind hkind o ho horph).1]
    refine (removeSections_done_iff (by decide)
      (fun kind hkind names hk => kept_eq (hkinds kind hkind) hk ▸ (hleads kind (hkinds kind hkind)).nodup)
      fun kind hkind => hdel kind (hkinds kind hkind)).1 fun r hr => ?_
    obtain ⟨hkind, names, hk, hn⟩ := mem_requests.1 hr
    obtain ⟨o, ho, horph, htarget⟩ := orphan_of_kept (hkinds _ hkind) (hleads _ (hkinds _ hkind)) hk hn
    rw [← stateRemove_skipsJobs hdeclared, htarget]
    exact (hgone _ o ho).2 horph

theorem removed_of_removable (h : Removable E state d) : (removeOrphans E state d).2 = d.without (orphan state) := by
  by_cases hlists : Lists E state.namespace_ d
  swap
  · have hnone := h.lists.resolve_left hlists
    rw [removeOrphans_fails hlists, without_congr (q := fun _ _ => false) hnone]
    have heq : ∀ kind, (d.objects kind).deleteWhere (fun _ => false) = d.objects kind := fun kind =>
      Table.deleteWhere_of_forall fun _ _ => rfl
    simp only [Daemon.without, heq]
  have hkinds : ∀ kind ∈ [ObjKind.cargo, .vm, .resource, .secret], kind ≠ .job := by decide
  have hleads : ∀ kind ≠ .job, Leads state d kind := by
    intro kind hkind o ho horph
    obtain ⟨-, -, ⟨o', ho', horph', heq⟩, -⟩ := h.orphans hlists kind hkind o ho horph
    have hlisted := (h.orphans hlists kind hkind o' ho' horph').2.1
    exact ⟨o'.name, List.mem_map_of_mem (List.mem_filter.2 ⟨hlisted, horph'⟩), heq⟩
  have hdel : ∀ kind ≠ .job, ∀ names, kept state d kind = some names → ∀ n ∈ names,
      Deletable E kind state.namespace_ n d := fun kind hkind names hk n hn =>
    deletable_of_kept hkind (hleads kind hkind) (fun o ho horph => (h.orphans hlists kind hkind o ho horph).2.2.2) hk hn
  have hwaits := h.waits hlists
  rw [← requests_kept fun kind hkind o ho horph => (h.orphans hlists kind hkind o ho horph).1] at hwaits
  have hdone := (removeSections_done_iff (by decide)
    (fun kind hkind names hk => kept_eq (hkinds kind hkind) hk ▸ (hleads kind (hkinds kind hkind)).nodup)
    fun kind hkind => hdel kind (hkinds kind hkind)).2 hwaits
  obtain ⟨gone, hsub, hrun⟩ := removeSections_sub E state.namespace_ (kept state d)
    [.cargo, .vm, .resource, .secret] d
  rw [hrun] at hdone
  rw [removeOrphans_lists hlists, stateRemove_skipsJobs (h.declared hlists), hrun]
  refine without_congr fun kind o ho => ?_
  rw [Bool.eq_iff_iff, List.contains_iff_mem]
  constructor
  · intro hkey
    obtain ⟨hkind, names, hk, n, hn, heq, -⟩ := hsub kind _ hkey
    obtain ⟨o', ho', horph, htarget⟩ := orphan_of_kept (hkinds _ hkind) (hleads _ (hkinds _ hkind)) hk hn
    obtain rfl := Table.key_inj ho ho' (heq.trans htarget)
    exact horph
  · intro horph
    have hkind : kind ≠ .job := by
      rintro rfl
      rw [h.jobs o ho] at horph
      cases horph
    obtain ⟨hsec, -, ⟨o', ho', horph', heq⟩, -⟩ := h.orphans hlists kind hkind o ho horph
    have hlisted := (h.orphans hlists kind hkind o' ho' horph').2.1
    obtain ⟨declared, hdec⟩ := Option.isSome_iff_exists.1 hsec
    obtain ⟨names, hk⟩ : ∃ names, kept state d kind = some names := by
      cases kind with
      | job => exact absurd rfl hkind
      | secret | cargo | vm | resource => exact ⟨_, congrArg (Option.map _) hdec⟩
    have hreq : (kind, o'.name) ∈ requests (kept state d) [.cargo, .vm, .resource, .secret] := by
      refine mem_requests.2 ⟨?_, names, hk, ?_⟩
      swap
      · rw [kept_eq hkind hk]
        exact List.mem_map_of_mem (List.mem_filter.2 ⟨hlisted, horph'⟩)
      cases kind with
      | job => exact absurd rfl hkind
      | secret | cargo | vm | resource => simp
    have hnone : ((d.drop gone).objects kind).find (target kind state.namespace_ o'.name) = none := hdone _ hreq
    rw [heq, Daemon.find_drop, Table.find_of_mem ho] at hnone
    by_contra hno
    rw [if_neg hno] at hnone
    cases hnone

/-- **`remove_orphans` removes exactly the orphans in these states of the daemon.** -/
theorem removes_orphans_iff (E : RmEnv) (state : StateRef δ) (d : Daemon) :
    (removeOrphans E state d).2 = d.without (orphan state) ↔ Removable E state d :=
  ⟨removable_of_removed, removed_of_removable⟩

end Orphans

/-! ## A section that is left out -/

/-- a daemon that does what it is asked for -/
def obliging : RmEnv := ⟨plainExternals, fun _ => none, fun _ _ => none, fun _ _ => some (.ok ())⟩

/-- a state of the group `app` that has no section -/
def emptyState : StateRef Unit :=
  ⟨"", ⟨"v0.16", none, some "app", none, none, none, none, none, none⟩, .none, "state.yml", []⟩

/-- a secret that an earlier version of the state has left -/
def oldSecret : Obj := ⟨"old", "old", "", some (.obj [("io.nanocl.group", .str "app")]), 1⟩

def oldSecrets : Daemon where
  namespaces := ["global"]
  objects
    | .secret => ⟨[oldSecret], List.nodup_singleton _⟩
    | .job | .cargo | .vm | .resource => Table.empty

/-- the secret of a state that has dropped its section of secrets is kept -/
theorem orphan_kept : ¬ ∀ (E : RmEnv) (state : StateRef Unit) (d : Daemon),
    (removeOrphans E state d).2 = d.without (orphan state) := by
  intro h
  have hremovable := removable_of_removed (h obliging emptyState oldSecrets)
  have hlists : Lists obliging emptyState.namespace_ oldSecrets := fun kind _ => by
    cases kind <;> decide
  have hsection := (hremovable.orphans hlists .secret (by decide) oldSecret List.mem_cons_self (by decide)).1
  cases hsection

end Nanocl.Cli
