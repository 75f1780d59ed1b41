/-
The histories of objects of different kinds under one key.

The specs of all kinds are rows of one table. A listing of a history reads the rows with the key of the object
(`read_by_kind_key`), a deletion removes them (`del_by_kind_key`), and neither looks at the kind of a row. The key of a
cargo or a VM is `name.namespace`, that of a resource is any name and that of a kind of resources is `domain/name`.

- `spares_iff`: a request leaves the specs of the other kinds alone, in the store and in its answer, exactly if those
  that it gets to are all of its own kind.
- `listing_returns_foreign`: a resource that is named like a cargo has the specs of the cargo in its history.
-/
import Nanocl.Objects.Vm
import Nanocl.Objects.Resource

namespace Nanocl.Objects

open Nanocl.Lib

variable {δ : Type} (E : Env δ)

/-- the requests that list the history of an object, and those that delete its specs -/
inductive HistoryRequest where
  | listCargo (key : String)
  | listVm (key : String)
  | listResource (key : String)
  | inspectKind (key : String)
  /-- what the task that deletes a cargo ends with -/
  | clearCargo (key : String)
  | deleteVm (key : String)
  | deleteResource (key : String)
  | deleteKind (domain name : String)

namespace HistoryRequest

def kind : HistoryRequest → SpecKind
  | listCargo _ | clearCargo _ => .cargo
  | listVm _ | deleteVm _ => .vm
  | listResource _ | deleteResource _ => .resource
  | inspectKind _ | deleteKind .. => .resourceKind

/-- the request, with the uuids of the specs it returns -/
def run : HistoryRequest → Io δ (List Uuid)
  | listCargo key => do
    let specs ← listCargoHistory E key
    return specs.map (·.key)
  | listVm key => do
    let specs ← listVmHistory E key
    return specs.map (·.key)
  | listResource key => do
    let specs ← listResourceHistory E key
    return specs.map (·.key)
  | inspectKind key => do
    let versions ← inspectResourceKind E key
    return versions.map (·.key)
  | clearCargo key => do
    clearObject E .cargo key
    return []
  | deleteVm key => do
    deleteVmTask E key
    return []
  | deleteResource key => do
    let _ ← Objects.deleteResource E key
    return []
  | deleteKind domain name => do
    deleteResourceKind E domain name
    return []

end HistoryRequest

/-- no spec of another kind is removed or returned -/
structure Spares (kind : SpecKind) (w : World δ) (r : Except HttpError (List Uuid) × World δ) : Prop where
  kept : ∀ s ∈ w.db.specs.rows, s.kindName ≠ kind → s ∈ r.2.db.specs.rows
  hidden : ∀ uuids, r.1 = .ok uuids → ∀ s ∈ w.db.specs.rows, s.kindName ≠ kind → s.key ∉ uuids

/-! ## What a request gets to -/

/-- the database without the row of an object -/
def withoutRow (db : Tables δ) (kind : SpecKind) (key : String) : Tables δ :=
  match kind with
  | .cargo => { db with cargoes := db.cargoes.delete key }
  | .vm => { db with vms := db.vms.delete key }
  | .resource => { db with resources := db.resources.delete key }
  | .resourceKind => { db with resourceKinds := db.resourceKinds.delete key }

/-- no row but that of the object refers to the specs under its key -/
def Unreferred (db : Tables δ) (kind : SpecKind) (key : String) : Prop :=
  ∀ s ∈ specsOf db key, (withoutRow db kind key).refersToSpec s.key = false

/-- every spec is read as `f` reads it -/
def AllRead {α : Type} (f : SpecDb δ → Except HttpError α) (specs : List (SpecDb δ)) : Prop :=
  ∀ s ∈ specs, ∃ a, f s = .ok a

/-- a deletion of VM `key` gets as far as its specs: the VM is read, its image has no children and goes, its row goes -/
structure VmGoes (w : World δ) (key : String) (vm : Vm δ) : Prop where
  readable : objectOf (vmFormat E) w.db key = .ok vm
  image : (w.db.vmImages.find vm.spec.disk.image).isSome
  leaf : ∀ i ∈ w.db.vmImages.rows, i.parent ≠ some vm.spec.disk.image
  /-- the sixth call removes the file -/
  before : E.Answers w 5
  after : E.Answers (w.after 6 w.db) 3

/-- `hook_delete` does not panic -/
def HookReturns (w : World δ) (resource : Resource δ) : Prop :=
  E.Answers w (parseCalls resource.kind + 1) → ∀ k, foundKind E w.db resource.kind = .ok k →
    ∀ url, k.1.data.url = some url → validUrl url

/-- the calls that `kindOf` makes: the second where the first finds a version -/
def kindOfCalls (w : World δ) (kind : String) : ℕ :=
  match decide (E.Answers w (parseCalls kind)), parsedKind E w.db kind with
  | true, .ok _ => parseCalls kind + 1
  | _, _ => parseCalls kind

/-- the calls that `hook_delete` makes -/
def hookCalls (w : World δ) (resource : Resource δ) : ℕ :=
  match decide (E.Answers w (parseCalls resource.kind + 1)), foundKind E w.db resource.kind with
  | true, .ok k => parseCalls resource.kind + 1 + (if k.1.data.url.isSome then 1 else 0)
  | _, _ => kindOfCalls E w resource.kind

/-- a deletion of resource `key` gets as far as its specs: the resource is read, the hook returns, the row goes -/
structure ResourceGoes (w : World δ) (key : String) (resource : Resource δ) : Prop where
  readable : resourceOf w.db key = .ok resource
  before : E.Answers w 1
  hook : HookReturns E w.tick resource
  after : E.Answers (w.after (1 + hookCalls E w.tick resource) w.db) 2

/-- the row of a kind with its spec -/
def kindRow (db : Tables δ) (pk : String) : Option (ResourceKindDb × SpecDb δ) := do
  let row ← db.resourceKinds.find pk
  let spec ← db.specs.find row.specKey
  return (row, spec)

/-- the specs that a request reads and returns, or deletes -/
def HistoryRequest.Reaches (w : World δ) (specs : List (SpecDb δ)) : HistoryRequest → Prop
  | listCargo key => E.Answers w 1 ∧ specs = newest (specsOf w.db key) ∧ AllRead (tryToCargoSpec E) specs
  | listVm key => E.Answers w 1 ∧ specs = newest (specsOf w.db key) ∧ AllRead (tryToVmSpec E) specs
  | listResource key => E.Answers w 1 ∧ specs = newest (specsOf w.db key)
  | inspectKind key => E.Answers w 2 ∧ ∃ kind, currentKind E w.db key = .ok kind ∧
      specs = newest (specsOf w.db kind.name) ∧ AllRead (toResourceKindVersion E) specs
  | clearCargo key => E.Answers w 2 ∧ specs = specsOf w.db key ∧ Unreferred w.db .cargo key
  | deleteVm key => ∃ vm, VmGoes E w key vm ∧ specs = specsOf w.db vm.spec.vmKey ∧ Unreferred w.db .vm vm.spec.vmKey
  | deleteResource key => ∃ resource, ResourceGoes E w key resource ∧
      specs = specsOf w.db resource.spec.resourceKey ∧ Unreferred w.db .resource resource.spec.resourceKey
  | deleteKind domain name => E.Answers w 3 ∧ (kindRow w.db (domain ++ "/" ++ name)).isSome ∧
      specs = specsOf w.db (domain ++ "/" ++ name) ∧ Unreferred w.db .resourceKind (domain ++ "/" ++ name)

variable {E}

/-! ## Listings -/

/-- specs that are returned with their keys: none of them is of another kind exactly if all of them are of the kind -/
theorem spares_iff_of_listing {kind : SpecKind} {w : World δ} {m : Io δ (List Uuid)} {n : ℕ} {specs : List (SpecDb δ)}
    {readable : Prop} {f : Tables δ → Except HttpError (List Uuid)} (hm : Reads E m n f)
    (hspecs : ∀ s ∈ specs, s ∈ w.db.specs.rows)
    (hf : readable ∧ f w.db = .ok (specs.map (·.key)) ∨ ¬ readable ∧ ∃ e, f w.db = .error e) :
    Spares kind w (m w) ↔ (E.Answers w n ∧ readable → ∀ s ∈ specs, s.kindName = kind) := by
  by_cases hok : E.Answers w n ∧ ∃ a, f w.db = .ok a
  · obtain ⟨hn, a, ha⟩ := hok
    obtain ⟨hr, hf⟩ : readable ∧ f w.db = .ok (specs.map (·.key)) := by
      rcases hf with hf | ⟨-, e, hf⟩
      · exact hf
      · rw [hf] at ha
        cases ha
    rw [hm.ok w _ hn hf]
    constructor
    · intro h _ s hs
      by_contra hkind
      exact h.hidden _ rfl s (hspecs s hs) hkind (List.mem_map_of_mem hs)
    · intro h
      refine ⟨fun s hs _ => hs, fun uuids huuids s hs hkind hmem => ?_⟩
      obtain rfl := Except.ok.inj huuids
      obtain ⟨s', hs', hkey⟩ := List.mem_map.1 hmem
      rw [Table.key_inj (hspecs s' hs') hs hkey] at hs'
      exact hkind (h ⟨hn, hr⟩ s hs')
  · obtain ⟨e, k, hrun⟩ := hm.error w hok
    rw [hrun]
    refine iff_of_true ⟨fun s hs _ => hs, fun uuids h => by cases h⟩ fun ⟨hn, hr⟩ => ?_
    rcases hf with ⟨-, hf⟩ | ⟨hno, -⟩
    · exact absurd ⟨hn, _, hf⟩ hok
    · exact absurd hr hno

/-- a decoding that keeps the uuid of each spec gives their uuids, or fails on one of them -/
theorem mapM_keys {α : Type} {read : SpecDb δ → Except HttpError α} {uuid : α → Uuid}
    (h : ∀ s a, read s = .ok a → uuid a = s.key) (specs : List (SpecDb δ)) :
    AllRead read specs ∧ (specs.mapM read).map (List.map uuid) = .ok (specs.map (·.key)) ∨
      ¬ AllRead read specs ∧ ∃ e, (specs.mapM read).map (List.map uuid) = .error e := by
  cases hmap : specs.mapM read with
  | error e =>
    refine .inr ⟨fun hall => ?_, e, rfl⟩
    obtain ⟨bs, hbs⟩ := mapM_isOk_iff.2 hall
    rw [hbs] at hmap
    cases hmap
  | ok as =>
    refine .inl ⟨mapM_isOk_iff.1 ⟨as, hmap⟩, ?_⟩
    have hkeys : List.Forall₂ (fun s a => uuid a = s.key) specs as :=
      (mapM_eq_ok_iff.1 hmap).imp h
    have : as.map uuid = specs.map (·.key) := by
      clear hmap
      induction hkeys with
      | nil => rfl
      | cons hkey _ ih => rw [List.map_cons, List.map_cons, hkey, ih]
    rw [Except.map, this]

theorem mem_newest_specsOf {db : Tables δ} {key : String} {s : SpecDb δ} (h : s ∈ newest (specsOf db key)) :
    s ∈ db.specs.rows := (List.mem_filter.1 (mem_of_mem_newest h)).1

/-- the listing of a history that decodes the rows -/
theorem spares_list_iff {α : Type} {read : SpecDb δ → Except HttpError α} {uuid : α → Uuid}
    (h : ∀ s a, read s = .ok a → uuid a = s.key) (kind : SpecKind) (w : World δ) (key : String) :
    Spares kind w ((do
        let rows ← readSpecsByKindKey E key
        let specs ← ofExcept (rows.mapM read)
        return specs.map uuid : Io δ (List Uuid)) w) ↔
      (E.Answers w 1 ∧ AllRead read (newest (specsOf w.db key)) → ∀ s ∈ newest (specsOf w.db key), s.kindName = kind) := by
  have hreads : Reads E (do
      let rows ← readSpecsByKindKey E key
      let specs ← ofExcept (rows.mapM read)
      return specs.map uuid : Io δ (List Uuid)) 1 _ :=
    reads_bind (reads_query _) fun _ => reads_bind (reads_ofExcept _) fun _ => reads_pure _
  refine spares_iff_of_listing hreads (fun s hs => mem_newest_specsOf hs) ?_
  simp only [bind, Except.bind]
  rcases mapM_keys h (newest (specsOf w.db key)) with ⟨hall, hf⟩ | ⟨hall, e, hf⟩
  · refine .inl ⟨hall, ?_⟩
    rw [← hf]
    rfl
  · refine .inr ⟨hall, e, ?_⟩
    rw [← hf]
    rfl

/-! ## Deletions -/

theorem delSpecs_of_unreferred {w : World δ} {key : String} (hf : E.fault w.calls = none)
    (href : ∀ s ∈ specsOf w.db key, w.db.refersToSpec s.key = false) :
    delSpecsByKindKey E key w =
      (.ok (), w.after 1 { w.db with specs := w.db.specs.deleteWhere fun s => s.kindKey = key }) := by
  refine exec_of_ok hf ?_
  rw [deleteSpecs, if_neg]
  rw [List.any_eq_true]
  rintro ⟨s, hs, h⟩
  rw [href s hs] at h
  cases h

/-- a deletion of specs that does not go through changes nothing -/
theorem delSpecs_refused {w : World δ} {key : String}
    (h : ¬ (E.fault w.calls = none ∧ ∀ s ∈ specsOf w.db key, w.db.refersToSpec s.key = false)) :
    ∃ e, delSpecsByKindKey E key w = (.error e, w.tick) := by
  cases hf : E.fault w.calls with
  | some e => exact ⟨e, by rw [delSpecsByKindKey, exec, call_of_fault hf]⟩
  | none =>
    refine ⟨invalidData E "SpecDb", exec_of_error hf ?_⟩
    rw [deleteSpecs, if_pos]
    rw [List.any_eq_true]
    by_contra hno
    refine h ⟨hf, fun s hs => ?_⟩
    by_contra href
    exact hno ⟨s, hs, by simpa using href⟩

/-- a deletion that ends with the specs of a key and a last part, after a first one that leaves the specs alone -/
theorem spares_iff_of_deletion {α : Type} {kind : SpecKind} {w : World δ} {pre : Io δ α} {key : α → String}
    {suf : α → Io δ Unit} (hpre : (pre w).2.db.specs = w.db.specs) (hsuf : ∀ a w, (suf a w).2.db.specs = w.db.specs) :
    Spares kind w ((do
        let a ← pre
        delSpecsByKindKey E (key a)
        suf a
        return [] : Io δ (List Uuid)) w) ↔
      ∀ a w₁, pre w = (.ok a, w₁) → E.fault w₁.calls = none →
        (∀ s ∈ specsOf w.db (key a), w₁.db.refersToSpec s.key = false) → ∀ s ∈ specsOf w.db (key a), s.kindName = kind := by
  rcases hrun : pre w with ⟨e | a, w₁⟩
  · rw [hrun] at hpre
    rw [Prog.bind_of_error hrun]
    refine iff_of_true ⟨fun s hs _ => hpre ▸ hs, fun uuids h => by cases h⟩ fun a w₁ h => by cases (Prod.mk.inj h).1
  · rw [hrun] at hpre
    rw [Prog.bind_of_ok hrun]
    have hspecs : specsOf w₁.db (key a) = specsOf w.db (key a) := by
      unfold specsOf
      rw [hpre]
    by_cases hgo : E.fault w₁.calls = none ∧ ∀ s ∈ specsOf w₁.db (key a), w₁.db.refersToSpec s.key = false
    · rw [Prog.bind_of_ok (delSpecs_of_unreferred hgo.1 hgo.2)]
      set w₂ := w₁.after 1 { w₁.db with specs := w₁.db.specs.deleteWhere fun s => s.kindKey = key a } with hw₂
      have hrows := hsuf a w₂
      have hmem : ∀ s, s ∈ (suf a w₂).2.db.specs.rows ↔ s ∈ w.db.specs.rows ∧ ¬ s.kindKey = key a := by
        intro s
        rw [hrows, hw₂, World.after_db, Table.mem_deleteWhere, hpre, decide_eq_false_iff_not]
      have hspares : Spares kind w ((do
          suf a
          return [] : Io δ (List Uuid)) w₂) ↔ ∀ s ∈ w.db.specs.rows, s.kindName ≠ kind → s ∈ (suf a w₂).2.db.specs.rows := by
        rcases hsuf' : suf a w₂ with ⟨e | u, w₃⟩
        · rw [Prog.bind_of_error hsuf']
          exact ⟨fun h => h.kept, fun h => ⟨h, fun _ h => by cases h⟩⟩
        · rw [Prog.bind_of_ok hsuf']
          refine ⟨fun h => h.kept, fun h => ⟨h, fun uuids huuids s _ _ => ?_⟩⟩
          obtain rfl := Except.ok.inj huuids
          exact List.not_mem_nil
      rw [hspares]
      constructor
      · intro h a' w₁' heq _ _ s hs
        obtain ⟨ha, -⟩ := Prod.mk.inj heq
        obtain rfl := Except.ok.inj ha
        obtain ⟨hs, hkey⟩ := List.mem_filter.1 hs
        by_contra hkind
        exact ((hmem s).1 (h s hs hkind)).2 (of_decide_eq_true hkey)
      · intro h s hs hkind
        refine (hmem s).2 ⟨hs, fun hkey => hkind ?_⟩
        exact h a w₁ rfl hgo.1 (hspecs ▸ hgo.2) s (List.mem_filter.2 ⟨hs, decide_eq_true hkey⟩)
    · obtain ⟨e, hfail⟩ := delSpecs_refused hgo
      rw [Prog.bind_of_error hfail]
      refine iff_of_true ⟨fun s hs _ => hpre ▸ hs, fun uuids h => by cases h⟩ fun a' w₁' heq hf href => ?_
      obtain ⟨ha, rfl⟩ := Prod.mk.inj heq
      obtain rfl := Except.ok.inj ha
      rw [hspecs] at hgo
      exact absurd ⟨hf, href⟩ hgo

/-! ### The hook -/

theorem readKind_world (pk : String) (w : World δ) : (readKind E pk w).2 = w.tick := by
  rw [readKind, Prog.run_bind]
  rcases h : readResourceKind E pk w with ⟨e | r, w₁⟩
  · exact (congrArg Prod.snd h).symm.trans (query_world _ w)
  · exact (congrArg Prod.snd h).symm.trans (query_world _ w)

theorem parseKind_world (kind : String) (w : World δ) : (parseKind E kind w).2 = w.after (parseCalls kind) w.db := by
  have hread : ((do
      let kind ← readKind E kind
      return (kind.name, kind.version) : Io δ (String × String)) w).2 = w.tick := by
    rw [Prog.run_bind]
    have hw := readKind_world (E := E) kind w
    rcases h : readKind E kind w with ⟨e | k, w₁⟩
    · rw [h] at hw
      exact hw
    · rw [h] at hw
      exact hw
  unfold parseKind parseCalls
  rcases splitKind kind with _ | ⟨domain, _ | ⟨name, _ | ⟨version, rest⟩⟩⟩
  · exact hread
  · exact hread
  · exact hread
  · rfl

/-- a search for a version that fails has made its calls -/
theorem kindOf_error {kind : String} {w w' : World δ} {e : HttpError} (h : kindOf E kind w = (.error e, w')) :
    w' = w.after (kindOfCalls E w kind) w.db := by
  have hworld := parseKind_world (E := E) kind w
  unfold kindOfCalls
  by_cases hok : E.Answers w (parseCalls kind) ∧ ∃ p, parsedKind E w.db kind = .ok p
  · obtain ⟨hn, ⟨name, version⟩, hp⟩ := hok
    rw [hp, decide_eq_true hn]
    rw [kindOf, Prog.bind_of_ok ((reads_parseKind kind).ok w _ hn hp)] at h
    set w₁ := w.after (parseCalls kind) w.db with hw₁
    change (do
      let row ← getVersion E name version
      let kind ← ofExcept (toResourceKind E row)
      return (kind, version) : Io δ (ResourceKind δ × String)) w₁ = _ at h
    have hquery : (getVersion E name version w₁).2 = w₁.tick := query_world _ w₁
    rcases hrow : getVersion E name version w₁ with ⟨e' | row, w₂⟩
    · rw [hrow] at hquery
      rw [Prog.bind_of_error hrow] at h
      rw [← (Prod.mk.inj h).2, show w₂ = w₁.tick from hquery, hw₁, World.tick, World.after_after, World.after_db]
    · rw [hrow] at hquery
      rw [Prog.bind_of_ok hrow] at h
      rcases hk : toResourceKind E row with e' | k
      · rw [Prog.bind_of_error (by rw [run_ofExcept, hk])] at h
        rw [← (Prod.mk.inj h).2, show w₂ = w₁.tick from hquery, hw₁, World.tick, World.after_after, World.after_db]
      · rw [Prog.bind_of_ok (by rw [run_ofExcept, hk])] at h
        cases (Prod.mk.inj h).1
  · obtain ⟨e', i, hrun⟩ := (reads_parseKind kind).error w hok
    rw [hrun] at hworld
    rw [kindOf, Prog.bind_of_error hrun] at h
    have hcalls : (match decide (E.Answers w (parseCalls kind)), parsedKind E w.db kind with
        | true, .ok _ => parseCalls kind + 1
        | _, _ => parseCalls kind) = parseCalls kind := by
      split
      · next p hn hp => exact absurd ⟨of_decide_eq_true hn, p, hp⟩ hok
      · rfl
    rw [hcalls, ← (Prod.mk.inj h).2]
    exact hworld

/-- the deletion of a rule is one call, and none of the database -/
theorem deleteRule_world (request : RuleRequest) (w : World δ) :
    (deleteRule E request w).2.db = w.db ∧ (deleteRule E request w).2.calls = w.calls + 1 := by
  cases hf : E.fault w.calls with
  | some e =>
    rw [deleteRule, call_of_fault hf]
    exact ⟨rfl, rfl⟩
  | none =>
    rw [deleteRule, call_of_answer hf]
    cases E.deleteRule w.tick.calls request with
    | error e => exact ⟨rfl, rfl⟩
    | ok u => exact ⟨rfl, rfl⟩

/-- the hook returns where it does not panic; it has made its calls and the database is as it was -/
theorem hookDelete_cases (resource : Resource δ) (w : World δ) :
    (¬ HookReturns E w resource ∧ ∃ e w', hookDelete E resource w = (.error e, w') ∧ w'.db = w.db) ∨
      (HookReturns E w resource ∧ ∃ r w', hookDelete E resource w = (.ok r, w') ∧ w'.db = w.db ∧
        w'.calls = w.calls + hookCalls E w resource) := by
  unfold hookDelete HookReturns hookCalls
  have hreads := reads_kindOf (E := E) resource.kind
  by_cases hok : E.Answers w (parseCalls resource.kind + 1) ∧ ∃ k, foundKind E w.db resource.kind = .ok k
  · obtain ⟨hn, ⟨kind, version⟩, hk⟩ := hok
    have hrun := hreads.ok w _ hn hk
    rw [Prog.bind_of_ok (Prog.run_attempt _ w), hrun, hk, decide_eq_true hn]
    set w₁ := w.after (parseCalls resource.kind + 1) w.db with hw₁
    cases hurl : kind.data.url with
    | none =>
      refine .inr ⟨fun _ k' hk' url hurl' => ?_, .ok (), w₁, ?_, rfl, ?_⟩
      · obtain rfl := Except.ok.inj hk'
        rw [hurl] at hurl'
        cases hurl'
      · simp only [hurl]
        rfl
      · simp only [hurl]
        rfl
    | some url =>
      by_cases hvalid : validUrl url
      · refine .inr ⟨fun _ k' hk' url' hurl' => ?_, ?_⟩
        · obtain rfl := Except.ok.inj hk'
          rw [hurl] at hurl'
          obtain rfl := Option.some.inj hurl'
          exact hvalid
        · simp only [hurl]
          have hctrl : ctrlClient (δ := δ) url w₁ = (.ok (), w₁) := by
            unfold ctrlClient
            rw [if_pos hvalid]
            rfl
          rw [Prog.bind_of_ok hctrl]
          obtain ⟨hdb, hcalls⟩ := deleteRule_world (E := E) ⟨url, resource.spec.version, resource.spec.resourceKey⟩ w₁
          refine ⟨_, _, Prog.run_attempt _ _, hdb, ?_⟩
          rw [hcalls, hw₁, World.after_calls, Option.isSome_some, if_pos rfl, Nat.add_assoc]
      · refine .inl ⟨fun h => hvalid (h hn _ rfl url hurl), internalServerError ("Invalid url: " ++ url), w₁, ?_, rfl⟩
        simp only [hurl]
        refine Prog.bind_of_error ?_
        unfold ctrlClient
        rw [if_neg hvalid]
        rfl
  · obtain ⟨e, i, hrun⟩ := hreads.error w hok
    have hworld := kindOf_error hrun
    rw [Prog.bind_of_ok (Prog.run_attempt _ w), hrun]
    refine .inr ⟨fun hn k hk => absurd ⟨hn, k, hk⟩ hok, .error e, _, rfl, rfl, ?_⟩
    rw [hworld]
    split
    · next k hn hk => exact absurd ⟨of_decide_eq_true hn, k, hk⟩ hok
    · rfl

/-! ## The requests -/

namespace HistoryRequest

theorem delStatus_specs (pk : String) (w : World δ) : (delStatus E pk w).2.db.specs = w.db.specs := by
  rcases h : delStatus E pk w with ⟨e | u, w'⟩
  · rw [exec_error h]
    rfl
  · obtain ⟨db, -, hdb, rfl⟩ := exec_ok h
    unfold deleteStatus at hdb
    split at hdb
    · cases hdb
    · obtain rfl := Except.ok.inj hdb
      rfl

theorem listCargo_spares (key : String) (w : World δ) :
    Spares .cargo w ((listCargo key).run E w) ↔
      ∀ specs, (listCargo key).Reaches E w specs → ∀ s ∈ specs, s.kindName = .cargo := by
  have h := spares_list_iff (E := E) (fun s a (hs : tryToCargoSpec E s = .ok a) => (columns_of_tryToCargoSpec E hs).1) .cargo w key
  simp only [run, listCargoHistory, bind_assoc] at h ⊢
  rw [h]
  exact ⟨fun h specs ⟨h1, hspecs, hall⟩ => hspecs ▸ h ⟨h1, hspecs ▸ hall⟩, fun h ⟨h1, hall⟩ => h _ ⟨h1, rfl, hall⟩⟩

theorem listVm_spares (key : String) (w : World δ) :
    Spares .vm w ((listVm key).run E w) ↔ ∀ specs, (listVm key).Reaches E w specs → ∀ s ∈ specs, s.kindName = .vm := by
  have h := spares_list_iff (E := E) (fun s a (hs : tryToVmSpec E s = .ok a) => (columns_of_tryToVmSpec E hs).1) .vm w key
  simp only [run, listVmHistory, bind_assoc] at h ⊢
  rw [h]
  exact ⟨fun h specs ⟨h1, hspecs, hall⟩ => hspecs ▸ h ⟨h1, hspecs ▸ hall⟩, fun h ⟨h1, hall⟩ => h _ ⟨h1, rfl, hall⟩⟩

theorem listResource_spares (key : String) (w : World δ) :
    Spares .resource w ((listResource key).run E w) ↔
      ∀ specs, (listResource key).Reaches E w specs → ∀ s ∈ specs, s.kindName = .resource := by
  have hreads : Reads E (do
      let rows ← readSpecsByKindKey E key
      return rows.map fun s => (toResourceSpec s).key : Io δ (List Uuid)) 1 _ :=
    reads_bind (reads_query _) fun _ => reads_pure _
  have hrun : (listResource key).run E = (do
      let rows ← readSpecsByKindKey E key
      return rows.map fun s => (toResourceSpec s).key : Io δ (List Uuid)) := by
    simp only [run, listResourceHistory, bind_assoc, pure_bind, List.map_map, Function.comp_def]
  have h : Spares .resource w _ ↔ (E.Answers w 1 ∧ True → ∀ s ∈ newest (specsOf w.db key), s.kindName = .resource) :=
    spares_iff_of_listing hreads (fun s hs => mem_newest_specsOf hs) (.inl ⟨trivial, rfl⟩)
  rw [hrun, h]
  exact ⟨fun h specs ⟨h1, hspecs⟩ => hspecs ▸ h ⟨h1, trivial⟩, fun h h1 => h _ ⟨h1.1, rfl⟩⟩

theorem inspectKind_spares (key : String) (w : World δ) :
    Spares .resourceKind w ((inspectKind key).run E w) ↔
      ∀ specs, (inspectKind key).Reaches E w specs → ∀ s ∈ specs, s.kindName = .resourceKind := by
  have hkey : ∀ (s : SpecDb δ) a, toResourceKindVersion E s = .ok a → a.key = s.key := by
    intro s a h
    obtain ⟨data, -, hdata⟩ := Except.bind_eq_ok_iff.1 h
    rw [← Except.ok.inj hdata]
  have hrun : (inspectKind key).run E = (do
      let kind ← readKind E key
      let rows ← readSpecsByKindKey E kind.name
      let versions ← ofExcept (rows.mapM (toResourceKindVersion E))
      return versions.map (·.key) : Io δ (List Uuid)) := by
    simp only [run, inspectResourceKind, bind_assoc]
  rw [hrun]
  by_cases hfirst : E.Answers w 1 ∧ ∃ kind, currentKind E w.db key = .ok kind
  · obtain ⟨h1, kind, hkind⟩ := hfirst
    rw [Prog.bind_of_ok ((reads_readKind key).ok w kind h1 hkind)]
    have h := spares_list_iff (E := E) hkey .resourceKind (w.after 1 w.db) kind.name
    have hadd : E.Answers w 2 ↔ E.Answers w 1 ∧ E.Answers (w.after 1 w.db) 1 := Env.answers_add (m := 1) (n := 1) w.db
    constructor
    · rintro hs specs ⟨h2, kind', hkind', rfl, hall⟩
      obtain rfl := Except.ok.inj (hkind.symm.trans hkind')
      exact h.1 ⟨hs.kept, hs.hidden⟩ ⟨(hadd.1 h2).2, hall⟩
    · intro hs
      have := h.2 fun ⟨h2, hall⟩ => hs _ ⟨hadd.2 ⟨h1, h2⟩, kind, hkind, rfl, hall⟩
      exact ⟨this.kept, this.hidden⟩
  · obtain ⟨e, k, hrun⟩ := (reads_readKind key).error w hfirst
    rw [Prog.bind_of_error hrun]
    refine iff_of_true ⟨fun s hs _ => hs, fun uuids h => by cases h⟩ ?_
    rintro specs ⟨h2, kind, hkind, -⟩
    exact absurd ⟨((Env.answers_add (m := 1) (n := 1) w.db).1 h2).1, kind, hkind⟩ hfirst

theorem clearCargo_spares (key : String) (w : World δ) :
    Spares .cargo w ((clearCargo key).run E w) ↔
      ∀ specs, (clearCargo key).Reaches E w specs → ∀ s ∈ specs, s.kindName = .cargo := by
  have hrun : (clearCargo key).run E = (do
      let u ← delObject E .cargo key
      delSpecsByKindKey E ((fun _ => key) u)
      (fun _ => delStatus E key) u
      return [] : Io δ (List Uuid)) := by
    simp only [run, clearObject, bind_assoc]
  have hpre : (delObject E .cargo key w).2.db.specs = w.db.specs := by
    rcases h : delObject E .cargo key w with ⟨e | u, w'⟩
    · rw [exec_error h]
      rfl
    · obtain ⟨db, -, hdb, rfl⟩ := exec_ok h
      obtain rfl := Except.ok.inj hdb
      rfl
  rw [hrun, spares_iff_of_deletion hpre fun _ w => delStatus_specs key w]
  constructor
  · rintro h specs ⟨h2, rfl, href⟩
    obtain ⟨h0, h1⟩ := Env.answers_two.1 h2
    exact h () _ (delObject_of_answer h0) h1 href
  · intro h u w₁ hok hf href
    obtain ⟨db, h0, hdb, rfl⟩ := exec_ok hok
    obtain rfl := Except.ok.inj hdb
    exact h _ ⟨Env.answers_two.2 ⟨h0, hf⟩, rfl, href⟩

theorem deleteVm_spares (key : String) (w : World δ) :
    Spares .vm w ((deleteVm key).run E w) ↔
      ∀ specs, (deleteVm key).Reaches E w specs → ∀ s ∈ specs, s.kindName = .vm := by
  have hrun : (deleteVm key).run E = (do
      let vm ← dropVm E key
      delSpecsByKindKey E ((fun vm => vm.spec.vmKey) vm)
      (fun vm : Vm δ => delStatus E vm.spec.vmKey) vm
      return [] : Io δ (List Uuid)) := by
    simp only [run, deleteVmTask_eq, bind_assoc]
  have hpre : (dropVm E key w).2.db.specs = w.db.specs := by
    rcases h : dropVm E key w with ⟨r, w'⟩
    rcases dropVm_cases h with ⟨e, k, -, rfl, -⟩ |
      ⟨vm, image, -, -, -, -, ⟨e, -, -, rfl⟩ | ⟨e, -, -, -, rfl⟩ | ⟨-, -, -, rfl⟩⟩
    · rfl
    · rw [World.tick_db, withoutDisk_db]
    · rfl
    · rfl
  rw [hrun, spares_iff_of_deletion hpre fun vm w => delStatus_specs vm.spec.vmKey w]
  rcases hdrop : dropVm E key w with ⟨r, w'⟩
  have hcases := dropVm_cases hdrop
  constructor
  · rintro h specs ⟨vm, hgoes, rfl, href⟩
    obtain ⟨h6, h7, h8⟩ := Env.answers_three.1 hgoes.after
    rcases hcases with ⟨e, k, rfl, rfl, hno⟩ | ⟨vm', image, -, hvm', -, -, ⟨e, -, hf, -⟩ | ⟨e, -, -, hf, -⟩ | ⟨rfl, -, -, rfl⟩⟩
    · exact absurd ⟨hgoes.before, vm, hgoes.readable, hgoes.image, hgoes.leaf⟩ hno
    · exact absurd h6 hf
    · exact absurd h7 hf
    · obtain rfl := Except.ok.inj (hgoes.readable.symm.trans hvm')
      exact h vm _ rfl (by simpa using h8) href
  · intro h vm w₁ hok hf href
    obtain ⟨rfl, rfl⟩ := Prod.mk.inj hok
    rcases hcases with ⟨e, k, hr, -⟩ | ⟨vm', image, h5, hvm', himage, hleaf, ⟨e, hr, -⟩ | ⟨e, hr, -⟩ | ⟨hr, h6, h7, rfl⟩⟩
    · cases hr
    · cases hr
    · cases hr
    · obtain rfl := Except.ok.inj hr
      refine h _ ⟨vm, ⟨hvm', by simp [himage], hleaf, h5, ?_⟩, rfl, href⟩
      exact Env.answers_three.2 ⟨h6, h7, by simpa using hf⟩

/-- `fn_del_obj_by_pk` of a resource up to its row -/
def dropResource (E : Env δ) (key : String) : Io δ (Resource δ) := do
  let resource ← readResourceObj E key
  let _ ← hookDelete E resource
  delResource E resource.spec.resourceKey
  return resource

/-- up to the row of a resource nothing happens, or all of it does -/
theorem dropResource_cases {key : String} {w w' : World δ} {r : Except HttpError (Resource δ)}
    (h : dropResource E key w = (r, w')) :
    (∃ e, r = .error e ∧ w'.db = w.db ∧ ¬ ∃ resource, E.Answers w 1 ∧ resourceOf w.db key = .ok resource ∧
      HookReturns E w.tick resource ∧ E.fault (w.calls + (1 + hookCalls E w.tick resource)) = none) ∨
    ∃ resource, r = .ok resource ∧ E.Answers w 1 ∧ resourceOf w.db key = .ok resource ∧ HookReturns E w.tick resource ∧
      E.fault (w.calls + (1 + hookCalls E w.tick resource)) = none ∧
      w'.calls = w.calls + (1 + hookCalls E w.tick resource) + 1 ∧
      w'.db = { w.db with resources := w.db.resources.delete resource.spec.resourceKey } := by
  unfold dropResource at h
  by_cases hfirst : E.Answers w 1 ∧ ∃ resource, resourceOf w.db key = .ok resource
  · obtain ⟨h1, resource, hres⟩ := hfirst
    have huniq : ∀ resource', resourceOf w.db key = .ok resource' → resource' = resource := fun resource' h' =>
      Except.ok.inj (h'.symm.trans hres)
    rw [Prog.bind_of_ok ((reads_readResourceObj key).ok w resource h1 hres)] at h
    change (do
      let _ ← hookDelete E resource
      delResource E resource.spec.resourceKey
      return resource : Io δ (Resource δ)) w.tick = _ at h
    rcases hookDelete_cases (E := E) resource w.tick with ⟨hno, e, w₁, hhook, hdb⟩ | ⟨hyes, r', w₁, hhook, hdb, hcalls⟩
    · rw [Prog.bind_of_error hhook] at h
      obtain ⟨rfl, rfl⟩ := Prod.mk.inj h
      refine .inl ⟨e, rfl, hdb, ?_⟩
      rintro ⟨resource', -, hres', hyes, -⟩
      exact hno (huniq resource' hres' ▸ hyes)
    · rw [Prog.bind_of_ok hhook] at h
      rw [World.tick_calls, Nat.add_assoc] at hcalls
      rw [World.tick_db] at hdb
      cases hf : E.fault (w.calls + (1 + hookCalls E w.tick resource)) with
      | some e =>
        rw [Prog.bind_of_error (by rw [delResource, exec, call_of_fault (by rw [hcalls, hf])])] at h
        obtain ⟨rfl, rfl⟩ := Prod.mk.inj h
        refine .inl ⟨e, rfl, hdb, ?_⟩
        rintro ⟨resource', -, hres', -, hf'⟩
        rw [huniq resource' hres', hf] at hf'
        cases hf'
      | none =>
        have hdel : delResource E resource.spec.resourceKey w₁ =
            (.ok (), w₁.after 1 { w.db with resources := w.db.resources.delete resource.spec.resourceKey }) :=
          exec_of_ok (by rw [hcalls, hf]) (by rw [hdb])
        rw [Prog.bind_of_ok hdel] at h
        obtain ⟨rfl, rfl⟩ := Prod.mk.inj h
        exact .inr ⟨resource, rfl, h1, hres, hyes, hf, by rw [World.after_calls, hcalls], rfl⟩
  · obtain ⟨e, k, hfail⟩ := (reads_readResourceObj key).error w hfirst
    rw [Prog.bind_of_error hfail] at h
    obtain ⟨rfl, rfl⟩ := Prod.mk.inj h
    refine .inl ⟨e, rfl, rfl, ?_⟩
    rintro ⟨resource, h1, hres, -⟩
    exact hfirst ⟨h1, resource, hres⟩

theorem deleteResource_spares (key : String) (w : World δ) :
    Spares .resource w ((deleteResource key).run E w) ↔
      ∀ specs, (deleteResource key).Reaches E w specs → ∀ s ∈ specs, s.kindName = .resource := by
  have hrun : (deleteResource key).run E = (do
      let resource ← dropResource E key
      delSpecsByKindKey E ((fun resource => resource.spec.resourceKey) resource)
      (fun _ => pure ()) resource
      return [] : Io δ (List Uuid)) := by
    simp only [run, Objects.deleteResource, dropResource, bind_assoc, pure_bind]
  rcases hdrop : dropResource E key w with ⟨r, w'⟩
  have hcases := dropResource_cases hdrop
  have hpre : (dropResource E key w).2.db.specs = w.db.specs := by
    rw [hdrop]
    rcases hcases with ⟨e, -, hdb, -⟩ | ⟨resource, -, -, -, -, -, -, hdb⟩
    · exact congrArg Tables.specs hdb
    · change w'.db.specs = w.db.specs
      rw [hdb]
  rw [hrun, spares_iff_of_deletion hpre fun _ _ => rfl, hdrop]
  constructor
  · rintro h specs ⟨resource, hgoes, rfl, href⟩
    obtain ⟨hdel, hspecs⟩ := Env.answers_two.1 hgoes.after
    rcases hcases with ⟨e, -, -, hno⟩ | ⟨resource', rfl, -, hres', -, -, hcalls, hdb⟩
    · exact absurd ⟨resource, hgoes.before, hgoes.readable, hgoes.hook, hdel⟩ hno
    · obtain rfl := Except.ok.inj (hgoes.readable.symm.trans hres')
      refine h resource w' rfl (by rw [hcalls]; exact hspecs) fun s hs => ?_
      rw [hdb]
      exact href s hs
  · intro h resource w₁ hok hf href
    obtain ⟨rfl, rfl⟩ := Prod.mk.inj hok
    rcases hcases with ⟨e, hr, -⟩ | ⟨resource', hr, h1, hres, hhook, hdel, hcalls, hdb⟩
    · cases hr
    · obtain rfl := Except.ok.inj hr
      rw [hdb] at href
      rw [hcalls] at hf
      exact h _ ⟨resource, ⟨hres, h1, hhook, Env.answers_two.2 ⟨hdel, hf⟩⟩, rfl, href⟩

theorem deleteKind_spares (domain name : String) (w : World δ) :
    Spares .resourceKind w ((deleteKind domain name).run E w) ↔
      ∀ specs, (deleteKind domain name).Reaches E w specs → ∀ s ∈ specs, s.kindName = .resourceKind := by
  have hrun : (deleteKind domain name).run E = (do
      let u ← (do
        let _ ← readResourceKind E (domain ++ "/" ++ name)
        delResourceKind E (domain ++ "/" ++ name) : Io δ Unit)
      delSpecsByKindKey E ((fun _ => domain ++ "/" ++ name) u)
      (fun _ => pure ()) u
      return [] : Io δ (List Uuid)) := by
    simp only [run, deleteResourceKind, bind_assoc, pure_bind]
  have hcases : (∃ e w₁, (do
        let _ ← readResourceKind E (domain ++ "/" ++ name)
        delResourceKind E (domain ++ "/" ++ name) : Io δ Unit) w = (.error e, w₁) ∧ w₁.db = w.db ∧
        ¬ (E.Answers w 2 ∧ (kindRow w.db (domain ++ "/" ++ name)).isSome)) ∨
      ((do
        let _ ← readResourceKind E (domain ++ "/" ++ name)
        delResourceKind E (domain ++ "/" ++ name) : Io δ Unit) w =
          (.ok (), w.after 2 (withoutRow w.db .resourceKind (domain ++ "/" ++ name))) ∧
        E.Answers w 2 ∧ (kindRow w.db (domain ++ "/" ++ name)).isSome) := by
    cases h0 : E.fault w.calls with
    | some e =>
      refine .inl ⟨e, w.tick, Prog.bind_of_error (by rw [readResourceKind, query, call_of_fault h0]), rfl, fun h => ?_⟩
      rw [(Env.answers_two.1 h.1).1] at h0
      cases h0
    | none =>
      have hread : readResourceKind E (domain ++ "/" ++ name) w =
          (orNotFound "ResourceKindDb" (kindRow w.db (domain ++ "/" ++ name)), w.tick) := query_of_answer h0
      cases hrow : kindRow w.db (domain ++ "/" ++ name) with
      | none =>
        rw [hrow] at hread
        exact .inl ⟨_, w.tick, Prog.bind_of_error hread, rfl, fun h => by cases h.2⟩
      | some row =>
        rw [hrow] at hread
        rw [Prog.bind_of_ok hread]
        cases h1 : E.fault (w.calls + 1) with
        | some e =>
          refine .inl ⟨e, w.tick.tick, by rw [delResourceKind, exec, call_of_fault h1], rfl, fun h => ?_⟩
          rw [(Env.answers_two.1 h.1).2] at h1
          cases h1
        | none =>
          refine .inr ⟨?_, Env.answers_two.2 ⟨h0, h1⟩, rfl⟩
          exact exec_of_ok (w := w.tick) h1 rfl
  have hpre : ((do
      let _ ← readResourceKind E (domain ++ "/" ++ name)
      delResourceKind E (domain ++ "/" ++ name) : Io δ Unit) w).2.db.specs = w.db.specs := by
    rcases hcases with ⟨e, w₁, hrun, hdb, -⟩ | ⟨hrun, -⟩
    · rw [hrun, hdb]
    · rw [hrun]
      rfl
  rw [hrun, spares_iff_of_deletion hpre fun _ _ => rfl]
  constructor
  · rintro h specs ⟨h3, hrow, rfl, href⟩
    obtain ⟨h2, hlast⟩ := Env.answers_succ.1 h3
    rcases hcases with ⟨e, w₁, -, -, hno⟩ | ⟨hrun, -⟩
    · exact absurd ⟨h2, hrow⟩ hno
    · exact h () _ hrun hlast href
  · intro h u w₁ hok hf href
    rcases hcases with ⟨e, w₂, hrun, -⟩ | ⟨hrun, h2, hrow⟩
    · rw [hrun] at hok
      cases (Prod.mk.inj hok).1
    · rw [hrun] at hok
      obtain ⟨-, rfl⟩ := Prod.mk.inj hok
      exact h _ ⟨Env.answers_succ.2 ⟨h2, hf⟩, hrow, rfl, href⟩

end HistoryRequest

/-- **The specs of the other kinds are left alone exactly if the request gets to none of them**: all the specs that it
reads, or deletes, under the key of its object are of the kind of that object. -/
theorem spares_iff (E : Env δ) (req : HistoryRequest) (w : World δ) :
    Spares req.kind w (req.run E w) ↔ ∀ specs, req.Reaches E w specs → ∀ s ∈ specs, s.kindName = req.kind := by
  cases req with
  | listCargo key => exact HistoryRequest.listCargo_spares key w
  | listVm key => exact HistoryRequest.listVm_spares key w
  | listResource key => exact HistoryRequest.listResource_spares key w
  | inspectKind key => exact HistoryRequest.inspectKind_spares key w
  | clearCargo key => exact HistoryRequest.clearCargo_spares key w
  | deleteVm key => exact HistoryRequest.deleteVm_spares key w
  | deleteResource key => exact HistoryRequest.deleteResource_spares key w
  | deleteKind domain name => exact HistoryRequest.deleteKind_spares domain name w

/-- the cargo `web.global`, then a kind of resources and a resource of it that is named `web.global` too -/
def sharedWorld : World Value :=
  let w := (createResourceKind Env.plain ⟨"test.io/rule", "v1", none, ⟨some (.text "schema"), none⟩⟩ webWorld).2
  (createResourceObj Env.plain ⟨"web.global", "test.io/rule", .text "rule", none⟩ w).2

/-- the history of the resource `web.global` has the spec of the cargo `web.global` in it -/
theorem listing_returns_foreign :
    ¬ Spares .resource sharedWorld ((HistoryRequest.listResource "web.global").run Env.plain sharedWorld) := by
  intro h
  have hspec : sharedWorld.db.specs.rows.head? = some (tryFromCargoPartial Env.plain "web.global" "v0.16" webSpec 0) := rfl
  have hret : ((HistoryRequest.listResource "web.global").run Env.plain sharedWorld).1 = .ok [11, 0] := rfl
  exact h.hidden _ hret _ (List.mem_of_mem_head? hspec) (by decide) (by decide)

end Nanocl.Objects
