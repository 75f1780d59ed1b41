/-
The rules that the controllers hold, and the resources that the daemon stores.

A resource whose kind has an url is a rule of the controller there; the version of its current spec says which url that is.
Kinds get new versions, and lose them all when they are deleted: the rule of a stored resource is looked up in the tables.

- `ControllerInv`: what the tables say about resources and kinds, with one lemma for each change of the tables.
- `Effect`: what a request on one resource does to the controllers and to its rule.
- `Hooked.held`: what the controllers hold once the hook of a creation has returned.
-/
import Nanocl.Lib.Mirror
import Nanocl.Lib.Transition
import Nanocl.Lib.Split
import Nanocl.Objects.KindKeys
import Nanocl.Objects.ResourceCases

namespace Nanocl.Objects

open Nanocl.Lib

variable {δ : Type} (E : Env δ)

/-! ## The rules of the stored resources -/

/-- where the controller of a version of a kind listens, if it has one -/
def urlOf (db : Tables δ) (kind version : String) : Option String :=
  match versionOf db kind version with
  | .error _ => none
  | .ok row =>
    match toResourceKind E row with
    | .error _ => none
    | .ok kind => kind.data.url

/-- the rule of a stored resource -/
def ruleOf (db : Tables δ) (name : String) : Option Rule :=
  match resourceOf db name with
  | .error _ => none
  | .ok resource => (urlOf E db resource.kind resource.spec.version).map fun url => ⟨url, name⟩

/-- the controllers hold the rules of the stored resources, and no others -/
def Agree (w : World δ) : Prop := Mirrors Rule.name { r | r ∈ w.rules } (ruleOf E w.db)

/-! ## Requests -/

/-- the requests on resources and their kinds; the name of a resource is a segment of a path -/
inductive ResourceOp (δ : Type) where
  | create (obj : ResourcePartial δ) (plain : '/' ∉ obj.name.toList)
  | put (name : String) (payload : ResourceUpdate δ)
  | revert (name : String) (history : Uuid)
  | delete (name : String)
  | createKind (item : ResourceKindPartial δ)
  | deleteKind (domain name : String)

def controllerStep (w : World δ) : ResourceOp δ → World δ
  | .create obj _ => (createResourceObj E obj w).2
  | .put name payload => (putResource E name payload w).2
  | .revert name history => (revertResource E name history w).2
  | .delete name => (deleteResource E name w).2
  | .createKind item => (createResourceKind E item w).2
  | .deleteKind domain name => (deleteResourceKind E domain name w).2

/-- what the tables say about resources and kinds -/
structure ControllerInv (db : Tables δ) : Prop where
  own : ∀ row ∈ db.resources.rows, ∃ s, db.specs.find row.specKey = some s ∧ s.kindKey = row.key
  plain : ∀ row ∈ db.resources.rows, '/' ∉ row.key.toList
  kind : ∀ row ∈ db.resources.rows, (splitKind row.kind).length = 2
  kinds : ∀ row ∈ db.resourceKinds.rows, ∃ s, db.specs.find row.specKey = some s ∧ s.kindKey = row.name ∧
    (splitKind row.name).length = 2

variable {E}

/-! ### Names -/

theorem length_splitKind (kind : String) : (splitKind kind).length = kind.toList.count '/' + 1 := by
  rw [splitKind, List.length_map, length_splitOn]

/-- the name of a resource is not that of a kind -/
theorem ne_of_plain {name kind : String} (hname : '/' ∉ name.toList) (hkind : (splitKind kind).length = 2) :
    name ≠ kind := by
  rintro rfl
  rw [length_splitKind, List.count_eq_zero_of_not_mem hname] at hkind
  cases hkind

/-- the name of a kind with its version left out -/
theorem length_splitKind_pair {kind domain name : String} {rest : List String}
    (h : splitKind kind = domain :: name :: rest) : (splitKind (domain ++ "/" ++ name)).length = 2 := by
  have hmem : ∀ part ∈ splitKind kind, '/' ∉ part.toList := by
    intro part hpart
    obtain ⟨l, hl, rfl⟩ := List.mem_map.1 hpart
    simpa using notMem_of_mem_splitOn hl
  have hdomain : '/' ∉ domain.toList := hmem _ (by simp [h])
  have hname : '/' ∉ name.toList := hmem _ (by simp [h])
  rw [length_splitKind]
  simp [List.count_append, List.count_eq_zero_of_not_mem hdomain, List.count_eq_zero_of_not_mem hname]

/-! ### What an operation on the specs leaves -/

theorem resourceOf_error_of_none {db : Tables δ} {name : String} (h : db.resources.find name = none) :
    resourceOf db name = .error (notFound "ResourceDb") := by
  simp [resourceOf, h, orNotFound, bind, Except.bind]

theorem resourceOf_of_find {db : Tables δ} {name : String} {row : ResourceDb} {spec : SpecDb δ}
    (hrow : db.resources.find name = some row) (hspec : db.specs.find row.specKey = some spec) :
    resourceOf db name = .ok ⟨row.kind, toResourceSpec spec⟩ := resourceOf_ok.2 ⟨row, spec, hrow, hspec, rfl⟩

/-- a resource that is stored is read, under its own name -/
theorem ControllerInv.resource {db : Tables δ} (h : ControllerInv db) {name : String} {resource : Resource δ}
    (hres : resourceOf db name = .ok resource) :
    resource.spec.resourceKey = name ∧ (splitKind resource.kind).length = 2 ∧ '/' ∉ name.toList := by
  obtain ⟨row, spec, hrow, hspec, rfl⟩ := resourceOf_ok.1 hres
  obtain ⟨hmem, hkey⟩ := Table.find_eq_some.1 hrow
  obtain ⟨s, hs, hown⟩ := h.own row hmem
  obtain rfl := Option.some.inj (hspec.symm.trans hs)
  exact ⟨hown.trans hkey, h.kind row hmem, hkey ▸ h.plain row hmem⟩

/-- a row that finds the same spec makes the same resource -/
theorem resourceOf_congr {db db' : Tables δ} {name : String} (hinv : ControllerInv db)
    (hres : db'.resources.find name = db.resources.find name)
    (hspecs : ∀ row spec, db.resources.find name = some row → db.specs.find row.specKey = some spec →
      db'.specs.find row.specKey = some spec) : resourceOf db' name = resourceOf db name := by
  cases hrow : db.resources.find name with
  | none =>
    rw [hrow] at hres
    rw [resourceOf_error_of_none hrow, resourceOf_error_of_none hres]
  | some row =>
    rw [hrow] at hres
    obtain ⟨spec, hspec, -⟩ := hinv.own row (Table.find_eq_some.1 hrow).1
    rw [resourceOf_of_find hrow hspec, resourceOf_of_find hres (hspecs row spec hrow hspec)]

theorem urlOf_congr {db db' : Tables δ} {kind : String} (h : specsOf db' kind = specsOf db kind) (version : String) :
    urlOf E db' kind version = urlOf E db kind version := by
  simp only [urlOf, versionOf, h]

/-- the rule of a resource is the same where its row, its spec and the versions of its kind are -/
theorem ruleOf_congr {db db' : Tables δ} {name : String} (hinv : ControllerInv db)
    (hres : db'.resources.find name = db.resources.find name)
    (hspecs : ∀ row spec, db.resources.find name = some row → db.specs.find row.specKey = some spec →
      db'.specs.find row.specKey = some spec)
    (hkinds : ∀ kind, (splitKind kind).length = 2 → specsOf db' kind = specsOf db kind) :
    ruleOf E db' name = ruleOf E db name := by
  unfold ruleOf
  rw [resourceOf_congr hinv hres hspecs]
  cases hread : resourceOf db name with
  | error e => rfl
  | ok resource =>
    have hkind := (hinv.resource hread).2.1
    simp only [urlOf_congr (hkinds _ hkind)]

theorem specsOf_insert {db : Tables δ} {s : SpecDb δ} {t : Table (SpecDb.key (δ := δ))} (h : db.specs.insert s = some t)
    (kind : String) : specsOf { db with specs := t } kind = specsOf db kind ++ if s.kindKey = kind then [s] else [] := by
  have hrows : t.rows = db.specs.rows ++ [s] := (Table.insert_eq_some.1 h).2
  unfold specsOf
  rw [show ({ db with specs := t } : Tables δ).specs.rows = db.specs.rows ++ [s] from hrows, List.filter_append]
  by_cases hs : s.kindKey = kind
  · simp [hs]
  · simp [hs]

/-! ### The invariant -/

section Inv

variable {db : Tables δ}

theorem ControllerInv.insertSpec (hinv : ControllerInv db) {s : SpecDb δ} {t : Table (SpecDb.key (δ := δ))}
    (h : db.specs.insert s = some t) : ControllerInv { db with specs := t } where
  own row hrow := by
    obtain ⟨s', hs', hkey⟩ := hinv.own row hrow
    exact ⟨s', Table.find_insert_of_find h hs', hkey⟩
  plain := hinv.plain
  kind := hinv.kind
  kinds row hrow := by
    obtain ⟨s', hs', hname⟩ := hinv.kinds row hrow
    exact ⟨s', Table.find_insert_of_find h hs', hname⟩

theorem ControllerInv.insertResource (hinv : ControllerInv db) {row : ResourceDb} {t : Table ResourceDb.key}
    (h : db.resources.insert row = some t) {s : SpecDb δ} (hs : db.specs.find row.specKey = some s)
    (hown : s.kindKey = row.key) (hplain : '/' ∉ row.key.toList) (hkind : (splitKind row.kind).length = 2) :
    ControllerInv { db with resources := t } where
  own row' hrow' := by
    rcases (Table.mem_insert h).1 hrow' with hrow' | rfl
    · exact hinv.own row' hrow'
    · exact ⟨s, hs, hown⟩
  plain row' hrow' := by
    rcases (Table.mem_insert h).1 hrow' with hrow' | rfl
    · exact hinv.plain row' hrow'
    · exact hplain
  kind row' hrow' := by
    rcases (Table.mem_insert h).1 hrow' with hrow' | rfl
    · exact hinv.kind row' hrow'
    · exact hkind
  kinds := hinv.kinds

theorem ControllerInv.pointResource (hinv : ControllerInv db) {name : String} {s : SpecDb δ}
    (hs : db.specs.find s.key = some s) (hown : s.kindKey = name) : ControllerInv (pointResource db name s.key) := by
  have hrows : ∀ row ∈ (Objects.pointResource db name s.key).resources.rows,
      ∃ row' ∈ db.resources.rows, row'.key = row.key ∧ row'.kind = row.kind ∧
        ((row.key = name ∧ row.specKey = s.key) ∨ row = row') := by
    intro row hrow
    have hrow : row ∈ (db.resources.update name (fun r => { r with specKey := s.key })
      (ResourceDb.key_repointed s.key)).rows := hrow
    obtain ⟨row', hrow', rfl⟩ := Table.mem_update.1 hrow
    by_cases hname : row'.key = name
    · rw [if_pos hname]
      exact ⟨row', hrow', rfl, rfl, .inl ⟨hname, rfl⟩⟩
    · rw [if_neg hname]
      exact ⟨row', hrow', rfl, rfl, .inr rfl⟩
  refine ⟨fun row hrow => ?_, fun row hrow => ?_, fun row hrow => ?_, hinv.kinds⟩
  · obtain ⟨row', hrow', -, -, ⟨hname, hspec⟩ | rfl⟩ := hrows row hrow
    · exact ⟨s, hspec ▸ hs, hown.trans hname.symm⟩
    · exact hinv.own row hrow'
  · obtain ⟨row', hrow', hkey, -⟩ := hrows row hrow
    rw [← hkey]
    exact hinv.plain row' hrow'
  · obtain ⟨row', hrow', -, hkind, -⟩ := hrows row hrow
    rw [← hkind]
    exact hinv.kind row' hrow'

theorem ControllerInv.deleteResource (hinv : ControllerInv db) (name : String) :
    ControllerInv { db with resources := db.resources.delete name } where
  own row hrow := hinv.own row (Table.mem_deleteWhere.1 hrow).1
  plain row hrow := hinv.plain row (Table.mem_deleteWhere.1 hrow).1
  kind row hrow := hinv.kind row (Table.mem_deleteWhere.1 hrow).1
  kinds := hinv.kinds

/-- the specs of a key that no row has -/
theorem ControllerInv.deleteSpecs (hinv : ControllerInv db) {key : String}
    (hres : ∀ row ∈ db.resources.rows, row.key ≠ key) (hkinds : ∀ row ∈ db.resourceKinds.rows, row.name ≠ key) :
    ControllerInv { db with specs := db.specs.deleteWhere fun s => s.kindKey = key } := by
  have hfind : ∀ uuid s, db.specs.find uuid = some s → s.kindKey ≠ key →
      (db.specs.deleteWhere fun s => s.kindKey = key).find uuid = some s := by
    intro uuid s hs hne
    obtain ⟨hmem, huuid⟩ := Table.find_eq_some.1 hs
    exact Table.find_eq_some.2 ⟨Table.mem_deleteWhere.2 ⟨hmem, by simpa using hne⟩, huuid⟩
  refine ⟨fun row hrow => ?_, hinv.plain, hinv.kind, fun row hrow => ?_⟩
  · obtain ⟨s, hs, hown⟩ := hinv.own row hrow
    exact ⟨s, hfind _ s hs (hown ▸ hres row hrow), hown⟩
  · obtain ⟨s, hs, hname, hlen⟩ := hinv.kinds row hrow
    exact ⟨s, hfind _ s hs (hname ▸ hkinds row hrow), hname, hlen⟩

theorem ControllerInv.insertKind (hinv : ControllerInv db) {row : ResourceKindDb} {t : Table ResourceKindDb.name}
    (h : db.resourceKinds.insert row = some t) {s : SpecDb δ} (hs : db.specs.find row.specKey = some s)
    (hname : s.kindKey = row.name) (hlen : (splitKind row.name).length = 2) :
    ControllerInv { db with resourceKinds := t } where
  own := hinv.own
  plain := hinv.plain
  kind := hinv.kind
  kinds row' hrow' := by
    rcases (Table.mem_insert h).1 hrow' with hrow' | rfl
    · exact hinv.kinds row' hrow'
    · exact ⟨s, hs, hname, hlen⟩

theorem ControllerInv.pointKind (hinv : ControllerInv db) {name : String} {s : SpecDb δ}
    (hs : db.specs.find s.key = some s) (hname : s.kindKey = name)
    (hkey : ∀ r : ResourceKindDb, { r with specKey := s.key }.name = r.name) :
    ControllerInv { db with
      resourceKinds := db.resourceKinds.update name (fun r => { r with specKey := s.key }) hkey } where
  own := hinv.own
  plain := hinv.plain
  kind := hinv.kind
  kinds row hrow := by
    have hrow : row ∈ (db.resourceKinds.update name (fun r => { r with specKey := s.key }) hkey).rows := hrow
    obtain ⟨row', hrow', rfl⟩ := Table.mem_update.1 hrow
    obtain ⟨s', hs', hname', hlen⟩ := hinv.kinds row' hrow'
    by_cases h : row'.name = name
    · rw [if_pos h]
      exact ⟨s, hs, hname.trans h.symm, hlen⟩
    · rw [if_neg h]
      exact ⟨s', hs', hname', hlen⟩

theorem ControllerInv.deleteKind (hinv : ControllerInv db) (name : String) :
    ControllerInv { db with resourceKinds := db.resourceKinds.delete name } where
  own := hinv.own
  plain := hinv.plain
  kind := hinv.kind
  kinds row hrow := hinv.kinds row (Table.mem_deleteWhere.1 hrow).1

end Inv

/-! ### What a request does -/

/-- a request on the resource of a name: what the controllers do about it, and the rule of the resource afterwards -/
structure Effect (E : Env δ) (w w' : World δ) (name : String) (t : Touch Rule) (new : Option Rule) : Prop where
  about : t.About Rule.name name
  named : ∀ r ∈ new, r.name = name
  held : { r | r ∈ w'.rules } = t.on { r | r ∈ w.rules }
  stored : ruleOf E w'.db = Function.update (ruleOf E w.db) name new
  inv : ControllerInv w'.db

theorem name_of_ruleOf {db : Tables δ} {name : String} : ∀ r ∈ ruleOf E db name, r.name = name := by
  intro r hr
  unfold ruleOf at hr
  cases hres : resourceOf db name with
  | error e => simp [hres] at hr
  | ok resource =>
    rw [hres] at hr
    obtain ⟨url, -, rfl⟩ := Option.map_eq_some_iff.1 hr
    rfl

/-- when store and controllers agree after a request -/
theorem Effect.agree_iff {w w' : World δ} {name : String} {t : Touch Rule} {new : Option Rule}
    (h : Effect E w w' name t new) (hagree : Agree E w) : Agree E w' ↔ t.Agrees (ruleOf E w.db name) new :=
  (Mirrors.congr h.held h.stored).trans (hagree.touch_iff h.about name_of_ruleOf h.named)

/-- a request that leaves the tables and the rules alone -/
theorem effect_of_eq {w w' : World δ} {name : String} (hinv : ControllerInv w.db) (hdb : w'.db = w.db)
    (hrules : w'.rules = w.rules) : Effect E w w' name .keep (ruleOf E w.db name) where
  about := trivial
  named := name_of_ruleOf
  held := by rw [hrules]; rfl
  stored := by rw [hdb, Function.update_eq_self]
  inv := by rw [hdb]; exact hinv

/-! ### The rules of the resources after a change of the tables -/

section Stored

variable {db : Tables δ}

/-- the spec of a resource is no version of a kind -/
theorem ruleOf_insertSpec (hinv : ControllerInv db) {s : SpecDb δ} {t : Table (SpecDb.key (δ := δ))}
    (h : db.specs.insert s = some t) (hplain : '/' ∉ s.kindKey.toList) :
    ruleOf E { db with specs := t } = ruleOf E db := by
  funext name
  refine ruleOf_congr hinv rfl (fun row spec _ hspec => Table.find_insert_of_find h hspec) fun kind hkind => ?_
  rw [specsOf_insert h, if_neg (ne_of_plain hplain hkind), List.append_nil]

/-- a spec is stored and the row of its resource is set to it -/
theorem ruleOf_setResource (hinv : ControllerInv db) {s : SpecDb δ} {t : Table (SpecDb.key (δ := δ))}
    (h : db.specs.insert s = some t) {r : ResourceDb} (hkey : s.kindKey = r.key) (hspec : r.specKey = s.key)
    (hplain : '/' ∉ r.key.toList) (hkind : (splitKind r.kind).length = 2) {rt : Table ResourceDb.key}
    (hself : rt.find r.key = some r) (hothers : ∀ name, name ≠ r.key → rt.find name = db.resources.find name) :
    ruleOf E { db with specs := t, resources := rt } = Function.update (ruleOf E db) r.key
      ((urlOf E db r.kind s.version).map fun url => ⟨url, r.key⟩) := by
  have hspecs : ∀ kind, (splitKind kind).length = 2 →
      specsOf { db with specs := t, resources := rt } kind = specsOf db kind := by
    intro kind hlen
    have hne : s.kindKey ≠ kind := hkey ▸ ne_of_plain hplain hlen
    exact (specsOf_insert h kind).trans (by rw [if_neg hne, List.append_nil])
  funext name
  by_cases hname : name = r.key
  · subst hname
    rw [Function.update_self]
    have hres : resourceOf { db with specs := t, resources := rt } r.key = .ok ⟨r.kind, toResourceSpec s⟩ :=
      resourceOf_of_find hself (hspec ▸ Table.find_insert_self h)
    unfold ruleOf
    rw [hres]
    exact congrArg (Option.map _) (urlOf_congr (hspecs _ hkind) s.version)
  · rw [Function.update_of_ne hname]
    exact ruleOf_congr hinv (hothers name hname) (fun _ _ _ hs => Table.find_insert_of_find h hs) hspecs

theorem ruleOf_deleteResource (hinv : ControllerInv db) (name : String) :
    ruleOf E { db with resources := db.resources.delete name } = Function.update (ruleOf E db) name none := by
  funext name'
  by_cases h : name' = name
  · subst h
    rw [Function.update_self]
    have hnone : (db.resources.delete name').find name' = none := by
      rw [Table.find_delete, if_pos rfl]
    unfold ruleOf
    rw [resourceOf_error_of_none hnone]
  · rw [Function.update_of_ne h]
    refine ruleOf_congr hinv ?_ (fun _ _ _ hspec => hspec) fun _ _ => rfl
    change (db.resources.delete name).find name' = _
    rw [Table.find_delete, if_neg h]

/-- the specs of a name that no resource has any more -/
theorem ruleOf_deleteSpecs (hinv : ControllerInv db) {key : String} (hres : ∀ row ∈ db.resources.rows, row.key ≠ key)
    (hkinds : ∀ kind, (splitKind kind).length = 2 → key ≠ kind) :
    ruleOf E { db with specs := db.specs.deleteWhere fun s => s.kindKey = key } = ruleOf E db := by
  funext name
  refine ruleOf_congr hinv rfl (fun row spec hrow hspec => ?_) fun kind hkind => ?_
  · obtain ⟨hmem, huuid⟩ := Table.find_eq_some.1 hspec
    obtain ⟨s, hs, hown⟩ := hinv.own row (Table.find_eq_some.1 hrow).1
    obtain rfl := Option.some.inj (hspec.symm.trans hs)
    have hne := hres row (Table.find_eq_some.1 hrow).1
    exact Table.find_eq_some.2 ⟨Table.mem_deleteWhere.2 ⟨hmem, by simpa [hown] using hne⟩, huuid⟩
  · change ((db.specs.rows.filter fun s => !(decide (s.kindKey = key))).filter fun s => s.kindKey = kind) = _
    rw [List.filter_filter]
    refine List.filter_congr fun s _ => ?_
    by_cases hs : s.kindKey = kind
    · have hne : s.kindKey ≠ key := fun heq => hkinds kind hkind (heq.symm.trans hs)
      simp [hs, hs ▸ hne]
    · simp [hs]

end Stored

/-! ### The hook of a creation -/

variable (E) in
/-- the rule that the hook hands to the controller, if the kind of the resource has one -/
def appliedRule (db : Tables δ) (obj : ResourcePartial δ) : Option Rule :=
  match parsedKind E db obj.kind with
  | .error _ => none
  | .ok p => (urlOf E db p.1 p.2).map fun url => ⟨url, obj.name⟩

theorem name_of_appliedRule {db : Tables δ} {obj : ResourcePartial δ} :
    ∀ r ∈ appliedRule E db obj, r.name = obj.name := by
  intro r hr
  unfold appliedRule at hr
  cases hp : parsedKind E db obj.kind with
  | error e => simp [hp] at hr
  | ok p =>
    rw [hp] at hr
    obtain ⟨url, -, rfl⟩ := Option.map_eq_some_iff.1 hr
    rfl

/-- the rule that the hook applies is that of the resource once its row is set -/
theorem appliedRule_of_parsed {db : Tables δ} {obj : ResourcePartial δ} {p : String × String}
    (h : parsedKind E db obj.kind = .ok p) :
    appliedRule E db obj = (urlOf E db p.1 p.2).map fun url => ⟨url, obj.name⟩ := by
  rw [appliedRule, h]

theorem foundKind_ok {db : Tables δ} {kind : String} {k : ResourceKind δ × String} (h : foundKind E db kind = .ok k) :
    ∃ p, parsedKind E db kind = .ok p ∧ p.2 = k.2 ∧ urlOf E db p.1 p.2 = k.1.data.url := by
  unfold foundKind at h
  cases hp : parsedKind E db kind with
  | error e => simp [hp, bind, Except.bind] at h
  | ok p =>
    refine ⟨p, rfl, ?_⟩
    cases hrow : versionOf db p.1 p.2 with
    | error e => simp [hp, hrow, bind, Except.bind] at h
    | ok row =>
      cases hk : toResourceKind E row with
      | error e => simp [hp, hrow, hk, bind, Except.bind] at h
      | ok k' =>
        simp only [hp, hrow, hk, bind, Except.bind, pure, Except.pure, Except.ok.injEq] at h
        rw [← h]
        exact ⟨rfl, by simp only [urlOf, hrow, hk]⟩

theorem held_withRule (w : World δ) (rule : Rule) :
    { r | r ∈ (w.withRule rule).rules } = insert rule { r | r ∈ w.rules } := by
  ext r
  by_cases h : r = rule
  · simp [World.withRule, h]
  · simp [World.withRule, h]

/-- what the controllers hold once the hook has returned -/
theorem Hooked.held {w w' : World δ} {obj item : ResourcePartial δ} (h : Hooked E w obj item w') :
    { r | r ∈ w'.rules } = (Touch.holds (appliedRule E w.db obj)).on { r | r ∈ w.rules } ∧
      ∃ p, parsedKind E w.db obj.kind = .ok p := by
  cases h with
  | plain kind version hacc hurl =>
    obtain ⟨p, hp, -, hurl'⟩ := foundKind_ok hacc.found
    have hrule : appliedRule E w.db obj = none := by
      rw [appliedRule, hp]
      change Option.map _ (urlOf E w.db p.1 p.2) = _
      rw [hurl', hurl]
      rfl
    rw [hrule]
    exact ⟨rfl, p, hp⟩
  | ruled kind version url data hacc hurl happlied =>
    obtain ⟨p, hp, -, hurl'⟩ := foundKind_ok hacc.found
    have hrule : appliedRule E w.db obj = some ⟨url, obj.name⟩ := by
      rw [appliedRule, hp]
      change Option.map _ (urlOf E w.db p.1 p.2) = _
      rw [hurl', hurl]
      rfl
    rw [hrule]
    exact ⟨held_withRule w _, p, hp⟩

theorem Hooked.unique {w w' w'' : World δ} {obj item item' : ResourcePartial δ} (h : Hooked E w obj item w')
    (h' : Hooked E w obj item' w'') : item = item' ∧ w' = w'' := by
  have hkind : ∀ {k k' : ResourceKind δ} {v v' : String}, Accepted E w obj k v → Accepted E w obj k' v' →
      k = k' ∧ v = v' :=
    fun ha ha' => Prod.mk.inj (Except.ok.inj (ha.found.symm.trans ha'.found))
  cases h with
  | plain kind version hacc hurl =>
    cases h' with
    | plain => exact ⟨rfl, rfl⟩
    | ruled kind' version' url data hacc' hurl' happlied =>
      obtain ⟨rfl, rfl⟩ := hkind hacc hacc'
      rw [hurl] at hurl'
      cases hurl'
  | ruled kind version url data hacc hurl happlied =>
    cases h' with
    | plain kind' version' hacc' hurl' =>
      obtain ⟨rfl, rfl⟩ := hkind hacc hacc'
      rw [hurl] at hurl'
      cases hurl'
    | ruled kind' version' url' data' hacc' hurl' happlied' =>
      obtain ⟨rfl, rfl⟩ := hkind hacc hacc'
      obtain rfl := Option.some.inj (hurl.symm.trans hurl')
      obtain rfl := Except.ok.inj (happlied.data.symm.trans happlied'.data)
      exact ⟨rfl, rfl⟩

theorem currentKind_ok {db : Tables δ} (hinv : ControllerInv db) {pk : String} {kind : ResourceKind δ}
    (h : currentKind E db pk = .ok kind) : kind.name = pk ∧ (splitKind pk).length = 2 := by
  unfold currentKind at h
  cases hrow : db.resourceKinds.find pk with
  | none => simp [hrow, orNotFound, bind, Except.bind] at h
  | some row =>
    obtain ⟨hmem, hname⟩ := Table.find_eq_some.1 hrow
    obtain ⟨s, hs, hkey, hlen⟩ := hinv.kinds row hmem
    simp only [hrow, hs, orNotFound, bind, Except.bind, Option.bind, pure] at h
    unfold toResourceKind at h
    cases hdata : resourceKindData E s with
    | error e => simp [hdata, bind, Except.bind] at h
    | ok data =>
      simp only [hdata, bind, Except.bind, pure, Except.pure, Except.ok.injEq] at h
      rw [← h]
      exact ⟨hkey.trans hname, hname ▸ hlen⟩

/-- the kind that a resource is given is named like one -/
theorem parsedKind_length {db : Tables δ} (hinv : ControllerInv db) {kind : String} {p : String × String}
    (h : parsedKind E db kind = .ok p) : (splitKind p.1).length = 2 := by
  unfold parsedKind at h
  split at h
  next domain name version rest hsplit =>
    rw [← Except.ok.inj h]
    exact length_splitKind_pair hsplit
  next =>
    cases hk : currentKind E db kind with
    | error e => simp [hk, bind, Except.bind] at h
    | ok k =>
      simp only [hk, bind, Except.bind, pure, Except.pure, Except.ok.injEq] at h
      obtain ⟨hname, hlen⟩ := currentKind_ok hinv hk
      rw [← h]
      exact hname ▸ hlen

/-- the kind of a stored resource is found under its own name -/
theorem parsedKind_self {db : Tables δ} (hinv : ControllerInv db) {kind : String} (hkind : (splitKind kind).length = 2)
    {p : String × String} (h : parsedKind E db kind = .ok p) : p.1 = kind := by
  unfold parsedKind at h
  split at h
  next domain name version rest hsplit =>
    rw [hsplit] at hkind
    simp at hkind
  next =>
    cases hk : currentKind E db kind with
    | error e => simp [hk, bind, Except.bind] at h
    | ok k =>
      simp only [hk, bind, Except.bind, pure, Except.pure, Except.ok.injEq] at h
      rw [← h]
      exact (currentKind_ok hinv hk).1

end Nanocl.Objects
