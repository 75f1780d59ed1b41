/-
What the requests on a resource do to its rule, call by call.

The hooks run before the rows are written, and look the version of the kind up anew at each call: what a request leaves at
the controllers and what it leaves in the store can differ. For each request there is the condition under which they do
not: `CreateFits`, `PutFits`, `PutResourceFits`, `RevertFits`, `DeleteResourceFits`.
-/
import Nanocl.Objects.ControllerRules

namespace Nanocl.Objects

open Nanocl.Lib

variable {δ : Type} {E : Env δ}

/-! ## Creation -/

variable (E) in
/-- the rows of a resource can be stored -/
def RowsCreated (w : World δ) (item : ResourcePartial δ) : Prop :=
  (∃ p, CreateBegins E w item p) ∧ CreateCompletes E w item

variable (E) in
/-- the rows are stored wherever the hook returns, or the rule that it applies is that of the resource already -/
def CreateFits (w : World δ) (obj : ResourcePartial δ) : Prop :=
  ¬ (E.Answers w 1 ∧ ∃ resource, resourceOf w.db obj.name = .ok resource) →
    ∀ item w₁, Hooked E w.tick obj item w₁ → ¬ RowsCreated E w₁ item →
      ∀ r ∈ appliedRule E w.db obj, ruleOf E w.db obj.name = some r

theorem create_effect {w : World δ} (hinv : ControllerInv w.db) {obj : ResourcePartial δ}
    (hplain : '/' ∉ obj.name.toList) :
    ∃ t new, Effect E w (createResourceObj E obj w).2 obj.name t new ∧
      (t.Agrees (ruleOf E w.db obj.name) new ↔ CreateFits E w obj) := by
  have hread := readResourceObj_world (E := E) obj.name w
  rw [createResourceObj, Prog.bind_of_ok (Prog.run_attempt _ w), hread]
  by_cases hfirst : E.Answers w 1 ∧ ∃ resource, resourceOf w.db obj.name = .ok resource
  · obtain ⟨h1, resource, hres⟩ := hfirst
    rw [(reads_readResourceObj obj.name).ok w resource h1 hres]
    refine ⟨.keep, _, effect_of_eq hinv rfl rfl, iff_of_true rfl fun hno => absurd ⟨h1, resource, hres⟩ hno⟩
  · obtain ⟨e, k, hfail⟩ := (reads_readResourceObj (E := E) obj.name).error w hfirst
    rw [hfail]
    rcases hookCreate_cases (E := E) obj w.tick with ⟨hno, e', k', hrun⟩ | ⟨item, w₁, hooked, hrun⟩
    · change ∃ t new, Effect E w ((hookCreate E obj >>= _) w.tick).2 obj.name t new ∧ _
      rw [Prog.bind_of_error hrun]
      exact ⟨.keep, _, effect_of_eq hinv rfl rfl, iff_of_true rfl fun _ item w₁ hooked => absurd hooked (hno item w₁)⟩
    · change ∃ t new, Effect E w ((hookCreate E obj >>= _) w.tick).2 obj.name t new ∧ _
      rw [Prog.bind_of_ok hrun]
      obtain ⟨hheld, p, hp⟩ := hooked.held
      rw [World.tick_db] at hheld hp
      have hdb : w₁.db = w.db := hooked.db
      have hitem := hooked.item
      have hname : item.name = obj.name := by rw [hitem]
      have hkind : item.kind = obj.kind := by rw [hitem]
      -- where the rows are not stored, the resource has the rule that it had
      have hnot : ∀ w', ControllerInv w'.db → ruleOf E w'.db = ruleOf E w.db → w'.rules = w₁.rules →
          ¬ RowsCreated E w₁ item → ∃ t new, Effect E w w' obj.name t new ∧
            (t.Agrees (ruleOf E w.db obj.name) new ↔ CreateFits E w obj) := by
        intro w' hinv' hstored hrules hrows
        refine ⟨_, ruleOf E w.db obj.name, ⟨Touch.about_holds name_of_appliedRule, name_of_ruleOf,
          by rw [hrules, hheld]; rfl, ?_, hinv'⟩, ?_⟩
        · rw [hstored, Function.update_eq_self]
        · rw [Touch.holds_agrees_old]
          exact ⟨fun hall _ _ _ _ _ => hall, fun hfits => hfits hfirst item w₁ hooked hrows⟩
      rcases hcreate : createResourceFromSpec E item w₁ with ⟨r, w'⟩
      rcases createResourceFromSpec_cases hcreate with ⟨e', k', rfl, rfl, hno⟩ | ⟨p', t, hbegins, ht, hrest⟩
      · refine hnot _ (hdb ▸ hinv) (by rw [World.after_db, hdb]) rfl fun hrows => ?_
        obtain ⟨p', hbegins⟩ := hrows.1
        exact hno p' hbegins
      · have hpp : p' = p := by
          have hparsed := hbegins.parsed
          rw [hdb, hkind, hp] at hparsed
          exact (Except.ok.inj hparsed).symm
        subst hpp
        rw [hdb] at ht
        set s := resourceRow item.name p'.2 item.data item.metadata (E.uuid (w₁.calls + parseCalls item.kind)) with hs
        have hitemPlain : '/' ∉ item.name.toList := by rwa [hname]
        have hinv₁ := hinv.insertSpec ht
        rcases hrest with ⟨e', rfl, hno, rfl⟩ | ⟨res, rt, rfl, hyes, hrt, rfl⟩
        · refine hnot _ ?_ ?_ rfl fun hrows => hno hrows.2
          · rw [World.after_db, hdb]
            exact hinv₁
          · rw [World.after_db, hdb]
            exact ruleOf_insertSpec hinv ht hitemPlain
        · rw [hdb] at hrt
          have hfree : w.db.resources.find obj.name = none := hdb ▸ hname ▸ hyes.free
          have hold : ruleOf E w.db obj.name = none := by
            rw [ruleOf, resourceOf_error_of_none hfree]
          have hlen := parsedKind_length hinv hp
          refine ⟨_, appliedRule E w.db obj, ⟨Touch.about_holds name_of_appliedRule, name_of_appliedRule, hheld, ?_,
            ?_⟩, ?_⟩
          · change ruleOf E { w₁.db with specs := t, resources := rt } = _
            rw [hdb, appliedRule_of_parsed hp, ← hname]
            exact ruleOf_setResource hinv ht (r := ⟨item.name, p'.1, s.key⟩) rfl rfl hitemPlain hlen
              (Table.find_insert_self hrt) fun name hne => by
                rw [Table.find_insert hrt, if_neg (Ne.symm hne)]
          · change ControllerInv { w₁.db with specs := t, resources := rt }
            rw [hdb]
            exact hinv₁.insertResource hrt (Table.find_insert_self ht) rfl hitemPlain hlen
          · rw [Touch.holds_agrees_self, hold]
            refine iff_of_true (fun _ h => by cases h) fun _ item' w₁' hooked' hno => absurd ?_ hno
            obtain ⟨rfl, rfl⟩ := hooked.unique hooked'
            exact ⟨⟨p', hbegins⟩, hyes⟩

/-! ## Updates -/

theorem find_pointResource (db : Tables δ) (name name' : String) (specKey : Uuid) :
    (pointResource db name specKey).resources.find name' =
      (db.resources.find name').map fun r => if name' = name then { r with specKey := specKey } else r :=
  Table.find_update db.resources name name' (fun r => { r with specKey := specKey }) (ResourceDb.key_repointed specKey)

variable (E) in
/-- the spec of an update can be stored, and the row can be set to it -/
def RowsUpdated (w : World δ) (item : ResourcePartial δ) : Prop :=
  (∃ resource p, UpdateBegins E w item resource p) ∧ E.fault (w.calls + (1 + parseCalls item.kind + 1)) = none

variable (E) in
/-- the rule that the hook applies is the one that the resource had; where the row is set, the resource may also have had
none -/
structure PutFits (w : World δ) (obj : ResourcePartial δ) : Prop where
  updated : ∀ item w₁, Hooked E w obj item w₁ → RowsUpdated E w₁ item →
    ∀ r ∈ ruleOf E w.db obj.name, appliedRule E w.db obj = some r
  failed : ∀ item w₁, Hooked E w obj item w₁ → ¬ RowsUpdated E w₁ item →
    ∀ r ∈ appliedRule E w.db obj, ruleOf E w.db obj.name = some r

variable (E) in
/-- `fn_put_obj_by_pk` of a resource, once it has read it -/
def hookAndUpdate (obj : ResourcePartial δ) : Io δ (Resource δ) := do
  let item ← hookCreate E obj
  updateResourceFromSpec E item

theorem update_effect {w : World δ} (hinv : ControllerInv w.db) {obj : ResourcePartial δ} {resource : Resource δ}
    (hres : resourceOf w.db obj.name = .ok resource) (hobj : obj.kind = resource.kind) :
    ∃ t new, Effect E w (hookAndUpdate E obj w).2 obj.name t new ∧
      (t.Agrees (ruleOf E w.db obj.name) new ↔ PutFits E w obj) := by
  obtain ⟨hkey, hlen, hplain⟩ := hinv.resource hres
  rw [hookAndUpdate]
  rcases hookCreate_cases (E := E) obj w with ⟨hno, e, k, hrun⟩ | ⟨item, w₁, hooked, hrun⟩
  · rw [Prog.bind_of_error hrun]
    exact ⟨.keep, _, effect_of_eq hinv rfl rfl, iff_of_true rfl ⟨fun item w₁ hooked => absurd hooked (hno item w₁),
      fun item w₁ hooked => absurd hooked (hno item w₁)⟩⟩
  · rw [Prog.bind_of_ok hrun]
    obtain ⟨hheld, p, hp⟩ := hooked.held
    have hdb : w₁.db = w.db := hooked.db
    have hitem := hooked.item
    have hname : item.name = obj.name := by rw [hitem]
    have hkind : item.kind = obj.kind := by rw [hitem]
    -- where the row is not set, the resource has the rule that it had
    have hnot : ∀ w', ControllerInv w'.db → ruleOf E w'.db = ruleOf E w.db → w'.rules = w₁.rules →
        ¬ RowsUpdated E w₁ item → ∃ t new, Effect E w w' obj.name t new ∧
          (t.Agrees (ruleOf E w.db obj.name) new ↔ PutFits E w obj) := by
      intro w' hinv' hstored hrules hrows
      refine ⟨_, ruleOf E w.db obj.name, ⟨Touch.about_holds name_of_appliedRule, name_of_ruleOf,
        by rw [hrules, hheld], ?_, hinv'⟩, ?_⟩
      · rw [hstored, Function.update_eq_self]
      · rw [Touch.holds_agrees_old]
        refine ⟨fun hall => ⟨fun item' w₁' hooked' hyes => absurd ?_ hrows, fun _ _ _ _ => hall⟩, fun hfits =>
          hfits.failed item w₁ hooked hrows⟩
        obtain ⟨rfl, rfl⟩ := hooked.unique hooked'
        exact hyes
    rcases hupdate : updateResourceFromSpec E item w₁ with ⟨r, w'⟩
    rcases updateResourceFromSpec_cases hupdate with ⟨e', k', rfl, rfl, hno⟩ | ⟨resource', p', t, hbegins, ht, hrest⟩
    · refine hnot _ (hdb ▸ hinv) (by rw [World.after_db, hdb]) rfl fun hrows => ?_
      obtain ⟨resource', p', hbegins⟩ := hrows.1
      exact hno resource' p' hbegins
    · have hpp : p' = p := by
        have hparsed := hbegins.parsed
        rw [hdb, hkind, hp] at hparsed
        exact (Except.ok.inj hparsed).symm
      have hrr : resource' = resource := by
        have hfound := hbegins.resource
        rw [hdb, hname, hres] at hfound
        exact (Except.ok.inj hfound).symm
      subst hpp hrr
      rw [hdb] at ht
      set s := resourceRow resource'.spec.resourceKey p'.2 item.data item.metadata
        (E.uuid (w₁.calls + (1 + parseCalls item.kind))) with hs
      have hskey : s.kindKey = obj.name := hkey
      have hinv₁ := hinv.insertSpec ht
      rcases hrest with ⟨e', rfl, hf, rfl⟩ | ⟨res, rfl, hf, rfl⟩
      · refine hnot _ ?_ ?_ rfl fun hrows => hf hrows.2
        · rw [World.after_db, hdb]
          exact hinv₁
        · rw [World.after_db, hdb]
          exact ruleOf_insertSpec hinv ht (hskey ▸ hplain)
      · obtain ⟨row, spec, hrow, hspec, rfl⟩ := resourceOf_ok.1 hres
        have hrowkey := Table.key_of_find hrow
        have hp₁ : p'.1 = row.kind := (parsedKind_self hinv (hobj ▸ hlen) hp).trans hobj
        have hself : (pointResource { w.db with specs := t } obj.name s.key).resources.find row.key =
            some { row with specKey := s.key } := by
          have hfind : ({ w.db with specs := t } : Tables δ).resources.find row.key = some row := hrowkey ▸ hrow
          rw [find_pointResource, hfind, Option.map_some, if_pos hrowkey]
        have hothers : ∀ name, name ≠ row.key →
            (pointResource { w.db with specs := t } obj.name s.key).resources.find name = w.db.resources.find name := by
          intro name hne
          have hne' : name ≠ obj.name := hrowkey ▸ hne
          simp only [find_pointResource, hne', if_false, Option.map_id']
        refine ⟨_, appliedRule E w.db obj, ⟨Touch.about_holds name_of_appliedRule, name_of_appliedRule, hheld, ?_,
          ?_⟩, ?_⟩
        · change ruleOf E (pointResource { w₁.db with specs := t } item.name s.key) = _
          have hset : ruleOf E (pointResource { w.db with specs := t } obj.name s.key) =
              Function.update (ruleOf E w.db) row.key
                ((urlOf E w.db row.kind s.version).map fun url => ⟨url, row.key⟩) :=
            ruleOf_setResource hinv ht (r := { row with specKey := s.key }) (hskey.trans hrowkey.symm) rfl
              (hinv.plain row (Table.find_eq_some.1 hrow).1) hlen hself hothers
          rw [hrowkey] at hset
          rw [hdb, hname, appliedRule_of_parsed hp, hp₁]
          exact hset
        · change ControllerInv (pointResource { w₁.db with specs := t } item.name s.key)
          rw [hdb, hname]
          exact hinv₁.pointResource (Table.find_insert_self ht) hskey
        · rw [Touch.holds_agrees_self]
          refine ⟨fun hall => ⟨fun _ _ _ _ => hall, fun item' w₁' hooked' hno => absurd ?_ hno⟩, fun hfits =>
            hfits.updated item w₁ hooked ⟨⟨_, _, hbegins⟩, hf⟩⟩
          obtain ⟨rfl, rfl⟩ := hooked.unique hooked'
          exact ⟨⟨_, _, hbegins⟩, hf⟩

theorem put_effect {w : World δ} (hinv : ControllerInv w.db) (obj : ResourcePartial δ) {resource : Resource δ}
    (hres : resourceOf w.db obj.name = .ok resource) (hobj : obj.kind = resource.kind) :
    ∃ t new, Effect E w (putResourceObj E obj.name obj w).2 obj.name t new ∧
      (t.Agrees (ruleOf E w.db obj.name) new ↔ (E.fault w.calls = none → PutFits E w.tick obj)) := by
  obtain ⟨row, spec, hrow, hspec, -⟩ := resourceOf_ok.1 hres
  cases hf : E.fault w.calls with
  | some e =>
    rw [putResourceObj, Prog.bind_of_error (by rw [readResource, query, call_of_fault hf])]
    exact ⟨.keep, _, effect_of_eq hinv rfl rfl, iff_of_true rfl fun h => by cases h⟩
  | none =>
    have hread : readResource E obj.name w = (.ok (row, spec), w.tick) := by
      rw [readResource, query_of_answer hf]
      simp [hrow, hspec, orNotFound]
    rw [putResourceObj, Prog.bind_of_ok hread]
    obtain ⟨t, new, heffect, hagrees⟩ := update_effect (E := E) (w := w.tick) hinv hres hobj
    exact ⟨t, new, ⟨heffect.about, heffect.named, heffect.held, heffect.stored, heffect.inv⟩,
      hagrees.trans ⟨fun h _ => h, fun h => h rfl⟩⟩

theorem Effect.of_db {w w₁ w' : World δ} {name : String} {t : Touch Rule} {new : Option Rule}
    (h : Effect E w₁ w' name t new) (hdb : w₁.db = w.db) (hrules : w₁.rules = w.rules) : Effect E w w' name t new where
  about := h.about
  named := h.named
  held := by rw [h.held, hrules]
  stored := by rw [h.stored, hdb]
  inv := h.inv

variable (E) in
/-- a put of the resource has what `PutFits` asks for, if it gets to the hook -/
def PutResourceFits (w : World δ) (name : String) (payload : ResourceUpdate δ) : Prop :=
  E.Answers w 2 → ∀ resource, resourceOf w.db name = .ok resource →
    PutFits E (w.after 2 w.db) ⟨name, resource.kind, payload.data, payload.metadata⟩

theorem putResource_effect {w : World δ} (hinv : ControllerInv w.db) (name : String) (payload : ResourceUpdate δ) :
    ∃ t new, Effect E w (putResource E name payload w).2 name t new ∧
      (t.Agrees (ruleOf E w.db name) new ↔ PutResourceFits E w name payload) := by
  rw [putResource]
  by_cases hfirst : E.Answers w 1 ∧ ∃ resource, resourceOf w.db name = .ok resource
  · obtain ⟨h1, resource, hres⟩ := hfirst
    rw [Prog.bind_of_ok ((reads_readResourceObj name).ok w resource h1 hres)]
    obtain ⟨t, new, heffect, hagrees⟩ := put_effect (E := E) (w := w.tick) hinv
      ⟨name, resource.kind, payload.data, payload.metadata⟩ hres rfl
    refine ⟨t, new, heffect.of_db rfl rfl, hagrees.trans ⟨fun h h2 resource' hres' => ?_, fun h hf => ?_⟩⟩
    · obtain rfl := Except.ok.inj (hres.symm.trans hres')
      have hput := h (Env.answers_two.1 h2).2
      rwa [World.tick, World.tick, World.after_after, World.after_db] at hput
    · have hput := h (Env.answers_two.2 ⟨Env.answers_one.1 h1, hf⟩) resource hres
      rwa [World.tick, World.tick, World.after_after, World.after_db]
  · obtain ⟨e, k, hfail⟩ := (reads_readResourceObj (E := E) name).error w hfirst
    rw [Prog.bind_of_error hfail]
    refine ⟨.keep, _, effect_of_eq hinv rfl rfl, iff_of_true rfl fun h2 resource hres =>
      absurd ⟨?_, resource, hres⟩ hfirst⟩
    exact Env.answers_one.2 (Env.answers_two.1 h2).1

variable (E) in
/-- a revert has what `PutFits` asks for, with the data of the entry, if it gets to the hook -/
def RevertFits (w : World δ) (name : String) (history : Uuid) : Prop :=
  E.Answers w 3 → ∀ h resource, w.db.specs.find history = some h → resourceOf w.db name = .ok resource →
    PutFits E (w.after 3 w.db) ⟨name, resource.kind, h.data, h.metadata⟩

theorem revertResource_effect {w : World δ} (hinv : ControllerInv w.db) (name : String) (history : Uuid) :
    ∃ t new, Effect E w (revertResource E name history w).2 name t new ∧
      (t.Agrees (ruleOf E w.db name) new ↔ RevertFits E w name history) := by
  rw [revertResource]
  by_cases hentry : E.Answers w 1 ∧ ∃ h, w.db.specs.find history = some h
  · obtain ⟨h1, h, hfind⟩ := hentry
    have hread : readSpec E history w = (.ok h, w.tick) := by
      rw [readSpec, query_of_answer (Env.answers_one.1 h1), hfind]
      rfl
    rw [Prog.bind_of_ok hread]
    by_cases hfirst : E.Answers w.tick 1 ∧ ∃ resource, resourceOf w.db name = .ok resource
    · obtain ⟨h2, resource, hres⟩ := hfirst
      rw [Prog.bind_of_ok ((reads_readResourceObj name).ok w.tick resource h2 hres), (hinv.resource hres).1]
      obtain ⟨t, new, heffect, hagrees⟩ := put_effect (E := E) (w := w.tick.tick) hinv
        ⟨name, resource.kind, h.data, h.metadata⟩ hres rfl
      refine ⟨t, new, heffect.of_db rfl rfl, hagrees.trans ⟨fun hput h3 h' resource' hfind' hres' => ?_,
        fun hput hf => ?_⟩⟩
      · obtain rfl := Option.some.inj (hfind.symm.trans hfind')
        obtain rfl := Except.ok.inj (hres.symm.trans hres')
        have hput := hput (Env.answers_three.1 h3).2.2
        simpa only [World.tick, World.after_after, World.after_db] using hput
      · have hput := hput (Env.answers_three.2 ⟨Env.answers_one.1 h1, Env.answers_one.1 h2, hf⟩) h resource hfind hres
        simpa only [World.tick, World.after_after, World.after_db] using hput
    · obtain ⟨e, k, hfail⟩ := (reads_readResourceObj (E := E) name).error w.tick hfirst
      rw [Prog.bind_of_error hfail]
      refine ⟨.keep, _, effect_of_eq hinv rfl rfl, iff_of_true rfl fun h3 _ resource _ hres =>
        absurd ⟨?_, resource, hres⟩ hfirst⟩
      exact Env.answers_one.2 (Env.answers_three.1 h3).2.1
  · have hfail : ∃ e, readSpec E history w = (.error e, w.tick) := by
      cases hf : E.fault w.calls with
      | some e => exact ⟨e, by rw [readSpec, query, call_of_fault hf]⟩
      | none =>
        cases hfind : w.db.specs.find history with
        | some h => exact absurd ⟨Env.answers_one.2 hf, h, hfind⟩ hentry
        | none => exact ⟨notFound "SpecDb", by rw [readSpec, query_of_answer hf, hfind]; rfl⟩
    obtain ⟨e, hfail⟩ := hfail
    rw [Prog.bind_of_error hfail]
    refine ⟨.keep, _, effect_of_eq hinv rfl rfl, iff_of_true rfl fun h3 h _ hfind _ => absurd ⟨?_, h, hfind⟩ hentry⟩
    exact Env.answers_one.2 (Env.answers_three.1 h3).1

/-! ## Deletion -/

variable (E) in
/-- the controller of the current version of the kind takes the rule back -/
structure Releases (w : World δ) (resource : Resource δ) (r : Rule) : Prop where
  answers : E.Answers w (parseCalls resource.kind + 2)
  kind : ∃ k, foundKind E w.db resource.kind = .ok k ∧ k.1.data.url = some r.url
  valid : validUrl r.url = true
  name : r.name = resource.spec.resourceKey
  taken : E.deleteRule (w.calls + (parseCalls resource.kind + 2)) ⟨r.url, resource.spec.version, r.name⟩ = .ok ()

theorem Releases.unique {w : World δ} {resource : Resource δ} {r r' : Rule} (h : Releases E w resource r)
    (h' : Releases E w resource r') : r = r' := by
  obtain ⟨k, hk, hurl⟩ := h.kind
  obtain ⟨k', hk', hurl'⟩ := h'.kind
  obtain rfl := Except.ok.inj (hk.symm.trans hk')
  obtain ⟨url, name⟩ := r
  obtain ⟨url', name'⟩ := r'
  obtain rfl : url = url' := Option.some.inj (hurl.symm.trans hurl')
  obtain rfl : name = name' := h.name.trans h'.name.symm
  rfl

/-- what the controllers hold after the hook of a deletion -/
theorem hookDelete_rules (resource : Resource δ) (w : World δ) :
    { r | r ∈ (hookDelete E resource w).2.rules } = { r | r ∈ w.rules ∧ ¬ Releases E w resource r } := by
  have hnone : (∀ r, ¬ Releases E w resource r) → ∀ w' : World δ, w'.rules = w.rules →
      { r | r ∈ w'.rules } = { r | r ∈ w.rules ∧ ¬ Releases E w resource r } := by
    intro hno w' hrules
    ext r
    rw [Set.mem_ofPred_eq, Set.mem_ofPred_eq, hrules]
    exact (and_iff_left (hno r)).symm
  unfold hookDelete
  have hreads := reads_kindOf (E := E) resource.kind
  by_cases hok : E.Answers w (parseCalls resource.kind + 1) ∧ ∃ k, foundKind E w.db resource.kind = .ok k
  · obtain ⟨hn, ⟨kind, version⟩, hk⟩ := hok
    rw [Prog.bind_of_ok (Prog.run_attempt _ w), hreads.ok w _ hn hk]
    set w₁ := w.after (parseCalls resource.kind + 1) w.db with hw₁
    have hreleased : ∀ r, Releases E w resource r → kind.data.url = some r.url := by
      intro r hr
      obtain ⟨k, hk', hurl⟩ := hr.kind
      obtain rfl := Except.ok.inj (hk.symm.trans hk')
      exact hurl
    cases hurl : kind.data.url with
    | none =>
      simp only [hurl]
      refine hnone (fun r hr => ?_) w₁ rfl
      have h := hreleased r hr
      rw [hurl] at h
      cases h
    | some url =>
      simp only [hurl]
      unfold ctrlClient
      by_cases hvalid : validUrl url
      · rw [if_pos hvalid, Prog.pure_bind]
        set request : RuleRequest := ⟨url, resource.spec.version, resource.spec.resourceKey⟩ with hrequest
        have hother : ∀ r, Releases E w resource r → r = request.rule := by
          intro r hr
          obtain ⟨url', name'⟩ := r
          obtain rfl : url' = url := Option.some.inj ((hreleased _ hr).symm.trans hurl)
          obtain rfl : name' = _ := hr.name
          rfl
        change { r | r ∈ (deleteRule E request w₁).2.rules } = _
        cases hf : E.fault w₁.calls with
        | some e =>
          rw [deleteRule, call_of_fault hf]
          refine hnone (fun r hr => ?_) w₁.tick rfl
          exact Option.some_ne_none e (hf.symm.trans (Env.answers_succ.1 hr.answers).2)
        | none =>
          rw [deleteRule, call_of_answer hf]
          cases htaken : E.deleteRule w₁.tick.calls request with
          | error e =>
            refine hnone (fun r hr => ?_) w₁.tick rfl
            have h := hr.taken
            rw [hother r hr] at h
            have hboth : (Except.error e : Except HttpError Unit) = .ok () := htaken.symm.trans h
            cases hboth
          | ok u =>
            have hreleases : Releases E w resource request.rule :=
              ⟨Env.answers_succ.2 ⟨hn, hf⟩, ⟨(kind, version), hk, hurl⟩, hvalid, rfl, htaken⟩
            ext r
            simp only [Set.mem_ofPred_eq, List.mem_filter, decide_eq_true_eq]
            refine and_congr_right fun _ => not_congr ⟨fun heq => heq ▸ hreleases, hother r⟩
      · rw [if_neg hvalid, Prog.fail_bind]
        refine hnone (fun r hr => ?_) w₁ rfl
        have h := hreleased r hr
        rw [hurl] at h
        exact hvalid (Option.some.inj h ▸ hr.valid)
  · obtain ⟨e, k, hfail⟩ := hreads.error w hok
    rw [Prog.bind_of_ok (Prog.run_attempt _ w), hfail]
    refine hnone (fun r hr => hok ?_) (w.after k w.db) rfl
    obtain ⟨k', hk', -⟩ := hr.kind
    exact ⟨(Env.answers_succ.1 hr.answers).1, k', hk'⟩

variable (E) in
/-- the rule of the resource is taken back where its row goes, and only there -/
structure DeleteFits (w : World δ) (name : String) (resource : Resource δ) : Prop where
  goes : E.fault (w.calls + (1 + hookCalls E w.tick resource)) = none →
    ∀ r ∈ ruleOf E w.db name, Releases E w.tick resource r
  stays : E.fault (w.calls + (1 + hookCalls E w.tick resource)) ≠ none →
    ∀ r, Releases E w.tick resource r → ruleOf E w.db name ≠ some r

variable (E) in
def DeleteResourceFits (w : World δ) (name : String) : Prop :=
  E.Answers w 1 → ∀ resource, resourceOf w.db name = .ok resource → HookReturns E w.tick resource →
    DeleteFits E w name resource

/-- what the controller does about a deletion -/
theorem exists_touch (E : Env δ) (w : World δ) (resource : Resource δ) :
    ∃ t : Touch Rule, t.About Rule.name resource.spec.resourceKey ∧
      { r | r ∈ w.rules ∧ ¬ Releases E w resource r } = t.on { r | r ∈ w.rules } ∧
      (∀ old, t.Agrees old none ↔ ∀ r ∈ old, Releases E w resource r) ∧
      ∀ old, t.Agrees old old ↔ ∀ r, Releases E w resource r → old ≠ some r := by
  by_cases h : ∃ r, Releases E w resource r
  · obtain ⟨r, hr⟩ := h
    have hiff : ∀ r', Releases E w resource r' ↔ r' = r := fun r' => ⟨fun h => h.unique hr, fun h => h ▸ hr⟩
    refine ⟨.release r, hr.name, ?_, fun old => ?_, fun old => ?_⟩
    · ext r'
      exact and_congr_right fun _ => not_congr (hiff r')
    · simp only [Touch.Agrees, implies_true, true_and, hiff]
      cases old with
      | none => simp
      | some r' => simp
    · simp only [Touch.Agrees, implies_true, and_true, hiff, forall_eq]
      cases old with
      | none => simp
      | some r' => simp
  · have hno : ∀ r, ¬ Releases E w resource r := fun r hr => h ⟨r, hr⟩
    refine ⟨.keep, trivial, ?_, fun old => ?_, fun old => ?_⟩
    · ext r
      exact and_iff_left (hno r)
    · simp only [Touch.Agrees, hno]
      cases old with
      | none => simp
      | some r => simp
    · exact iff_of_true rfl fun r hr => absurd hr (hno r)

theorem deleteResource_effect {w : World δ} (hinv : ControllerInv w.db) (name : String) :
    ∃ t new, Effect E w (deleteResource E name w).2 name t new ∧
      (t.Agrees (ruleOf E w.db name) new ↔ DeleteResourceFits E w name) := by
  rw [deleteResource]
  by_cases hfirst : E.Answers w 1 ∧ ∃ resource, resourceOf w.db name = .ok resource
  · obtain ⟨h1, resource, hres⟩ := hfirst
    have huniq : ∀ resource', resourceOf w.db name = .ok resource' → resource' = resource := fun resource' h =>
      Except.ok.inj (h.symm.trans hres)
    obtain ⟨hkey, -, hplain⟩ := hinv.resource hres
    rw [Prog.bind_of_ok ((reads_readResourceObj name).ok w resource h1 hres)]
    change ∃ t new, Effect E w ((hookDelete E resource >>= fun _ => do
      delResource E resource.spec.resourceKey
      delSpecsByKindKey E resource.spec.resourceKey
      return resource : Io δ (Resource δ)) w.tick).2 name t new ∧ _
    have hrules := hookDelete_rules (E := E) resource w.tick
    obtain ⟨t, habout, hheld, hgone, hkept⟩ := exists_touch E w.tick resource
    rw [hheld] at hrules
    rcases hookDelete_cases (E := E) resource w.tick with ⟨hno, e, w₁, hhook, hdb⟩ | ⟨hyes, r', w₁, hhook, hdb, hcalls⟩
    · rw [Prog.bind_of_error hhook]
      rw [hhook] at hrules
      have hnone : ∀ r, ¬ Releases E w.tick resource r := by
        refine fun r hr => hno fun _ k hk url hurl => ?_
        obtain ⟨k', hk', hurl'⟩ := hr.kind
        obtain rfl := Except.ok.inj (hk.symm.trans hk')
        exact Option.some.inj (hurl'.symm.trans hurl) ▸ hr.valid
      refine ⟨t, ruleOf E w.db name, ⟨hkey ▸ habout, name_of_ruleOf, hrules, ?_, ?_⟩, ?_⟩
      · rw [hdb, World.tick_db, Function.update_eq_self]
      · rw [hdb]
        exact hinv
      · rw [hkept]
        exact iff_of_true (fun r hr => absurd hr (hnone r)) fun _ resource' hres' hyes =>
          absurd (huniq resource' hres' ▸ hyes) hno
    · rw [Prog.bind_of_ok hhook, hkey]
      rw [hhook] at hrules
      rw [World.tick_db] at hdb
      rw [World.tick_calls, Nat.add_assoc] at hcalls
      cases hf : E.fault (w.calls + (1 + hookCalls E w.tick resource)) with
      | some e =>
        rw [Prog.bind_of_error (by rw [delResource, exec, call_of_fault (by rw [hcalls, hf])])]
        refine ⟨t, ruleOf E w.db name, ⟨hkey ▸ habout, name_of_ruleOf, hrules, ?_, ?_⟩, ?_⟩
        · rw [World.tick_db, hdb, Function.update_eq_self]
        · rw [World.tick_db, hdb]
          exact hinv
        · rw [hkept]
          constructor
          · intro hall _ resource' hres' _
            rw [huniq resource' hres']
            exact ⟨fun h => (Option.some_ne_none e (hf.symm.trans h)).elim, fun _ => hall⟩
          · intro hfits
            exact (hfits h1 resource hres hyes).stays (by rw [hf]; exact Option.some_ne_none e)
      | none =>
        have hdel : delResource E name w₁ = (.ok (), w₁.after 1 { w.db with resources := w.db.resources.delete name }) :=
          exec_of_ok (by rw [hcalls, hf]) (by rw [hdb])
        rw [Prog.bind_of_ok hdel]
        have hagrees : t.Agrees (ruleOf E w.db name) none ↔ DeleteResourceFits E w name := by
          rw [hgone]
          constructor
          · intro hall _ resource' hres' _
            rw [huniq resource' hres']
            exact ⟨fun _ => hall, fun h => absurd hf h⟩
          · intro hfits
            exact (hfits h1 resource hres hyes).goes hf
        set w₂ := w₁.after 1 { w.db with resources := w.db.resources.delete name } with hw₂
        have hinv₂ := hinv.deleteResource name
        have hstored₂ := ruleOf_deleteResource (E := E) hinv name
        have hnorow : ∀ row ∈ (w.db.resources.delete name).rows, row.key ≠ name := by
          intro row hrow
          simpa using (Table.mem_deleteWhere.1 hrow).2
        by_cases hspecs : E.fault w₂.calls = none ∧ ∀ s ∈ specsOf w₂.db name, w₂.db.refersToSpec s.key = false
        · rw [Prog.bind_of_ok (delSpecs_of_unreferred hspecs.1 hspecs.2)]
          refine ⟨t, none, ⟨hkey ▸ habout, fun r hr => (by cases hr), hrules, ?_, ?_⟩, hagrees⟩
          · rw [← hstored₂]
            exact ruleOf_deleteSpecs hinv₂ hnorow fun kind hkind => ne_of_plain hplain hkind
          · refine hinv₂.deleteSpecs hnorow fun row hrow heq => ?_
            obtain ⟨s, -, -, hlen⟩ := hinv.kinds row hrow
            exact ne_of_plain hplain hlen heq.symm
        · obtain ⟨e, hfail⟩ := delSpecs_refused hspecs
          rw [Prog.bind_of_error hfail]
          exact ⟨t, none, ⟨hkey ▸ habout, fun r hr => (by cases hr), hrules, hstored₂, hinv₂⟩, hagrees⟩
  · obtain ⟨e, k, hfail⟩ := (reads_readResourceObj (E := E) name).error w hfirst
    rw [Prog.bind_of_error hfail]
    exact ⟨.keep, _, effect_of_eq hinv rfl rfl, iff_of_true rfl fun h1 resource hres =>
      absurd ⟨h1, resource, hres⟩ hfirst⟩

end Nanocl.Objects
