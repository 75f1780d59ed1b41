/-
What the parts of the requests on resources do, by the call they get stuck at: the hook that asks the controller, the
creation of the rows, and their update.

- `hookCreate_cases`: the hook returns exactly if it finds the version of the kind, the schema accepts
  the data and the controller, if there is one, answers; it holds the rule then. Otherwise nothing has changed.
- `createResourceFromSpec_cases`, `updateResourceFromSpec_cases`: nothing is stored, or the spec only, or spec and row.
-/
import Nanocl.Objects.Resource
import Nanocl.Objects.Spec

namespace Nanocl.Objects

open Nanocl.Lib

variable {δ : Type}

/-! ## The hook -/

/-- the controllers hold one more rule -/
def World.withRule (w : World δ) (rule : Rule) : World δ := { w with rules := rule :: w.rules.filter fun r => r ≠ rule }

@[simp] theorem World.withRule_db (w : World δ) (rule : Rule) : (w.withRule rule).db = w.db := rfl

@[simp] theorem World.withRule_calls (w : World δ) (rule : Rule) : (w.withRule rule).calls = w.calls := rfl

/-- the version of the kind is found and its schema accepts the data -/
structure Accepted (E : Env δ) (w : World δ) (obj : ResourcePartial δ) (kind : ResourceKind δ) (version : String) :
    Prop where
  answers : E.Answers w (parseCalls obj.kind + 1)
  found : foundKind E w.db obj.kind = .ok (kind, version)
  valid : validateData E kind obj.data = .ok ()

/-- the controller at the url answers to the rule with `data` -/
structure Applied (E : Env δ) (w : World δ) (obj : ResourcePartial δ) (url version : String) (data : δ) : Prop where
  valid : validUrl url
  answers : E.fault (w.calls + (parseCalls obj.kind + 1)) = none
  data : E.applyRule (w.calls + (parseCalls obj.kind + 2)) ⟨url, version, obj.name⟩ obj.data = .ok data

/-- the two ways through the hook: a kind with a schema only, and one with a controller -/
inductive Hooked (E : Env δ) (w : World δ) (obj : ResourcePartial δ) : ResourcePartial δ → World δ → Prop
  | plain (kind : ResourceKind δ) (version : String) (h : Accepted E w obj kind version) (hurl : kind.data.url = none) :
      Hooked E w obj obj (w.after (parseCalls obj.kind + 1) w.db)
  | ruled (kind : ResourceKind δ) (version url : String) (data : δ) (h : Accepted E w obj kind version)
      (hurl : kind.data.url = some url) (happlied : Applied E w obj url version data) :
      Hooked E w obj { obj with data := data }
        ((w.withRule ⟨url, obj.name⟩).after (parseCalls obj.kind + 2) w.db)

variable {E : Env δ}

theorem Hooked.db {w w' : World δ} {obj item : ResourcePartial δ} (h : Hooked E w obj item w') : w'.db = w.db := by
  cases h <;> rfl

theorem Hooked.item {w w' : World δ} {obj item : ResourcePartial δ} (h : Hooked E w obj item w') :
    item = { obj with data := item.data } := by
  cases h <;> rfl

theorem applyRule_ok {w : World δ} {request : RuleRequest} {data data' : δ} (hf : E.fault w.calls = none)
    (h : E.applyRule (w.calls + 1) request data = .ok data') :
    applyRule E request data w = (.ok data', (w.withRule request.rule).after 1 w.db) := by
  rw [applyRule, call_of_answer hf, World.tick_calls, h]
  rfl

/-- a rule that is refused is not held -/
theorem applyRule_error {w : World δ} {request : RuleRequest} {data : δ}
    (h : ¬ (E.fault w.calls = none ∧ ∃ data', E.applyRule (w.calls + 1) request data = .ok data')) :
    ∃ e, applyRule E request data w = (.error e, w.tick) := by
  cases hf : E.fault w.calls with
  | some e => exact ⟨e, call_of_fault hf⟩
  | none =>
    cases hr : E.applyRule (w.calls + 1) request data with
    | ok data' => exact absurd ⟨hf, data', hr⟩ h
    | error e => exact ⟨e, by rw [applyRule, call_of_answer hf, World.tick_calls, hr]⟩

/-- **What the hook does**: it goes one of the two ways through, or fails and has changed nothing. -/
theorem hookCreate_cases (obj : ResourcePartial δ) (w : World δ) :
    ((∀ item w', ¬ Hooked E w obj item w') ∧ ∃ e k, hookCreate E obj w = (.error e, w.after k w.db)) ∨
      ∃ item w', Hooked E w obj item w' ∧ hookCreate E obj w = (.ok item, w') := by
  by_cases hfound : E.Answers w (parseCalls obj.kind + 1) ∧ ∃ k, foundKind E w.db obj.kind = .ok k
  · obtain ⟨hn, ⟨kind, version⟩, hk⟩ := hfound
    have hrun : hookCreate E obj w = _ := Prog.bind_of_ok ((reads_kindOf obj.kind).ok w _ hn hk)
    have hunique : ∀ kind' version', Accepted E w obj kind' version' → kind' = kind ∧ version' = version := by
      intro kind' version' h
      exact Prod.mk.inj (Except.ok.inj (h.found.symm.trans hk))
    set w₁ := w.after (parseCalls obj.kind + 1) w.db with hw₁
    cases hvalid : validateData E kind obj.data with
    | error e =>
      refine .inl ⟨fun item w' hh => ?_, e, parseCalls obj.kind + 1, ?_⟩
      · have hno : ∀ kind' version', ¬ Accepted E w obj kind' version' := by
          intro kind' version' h
          obtain ⟨rfl, rfl⟩ := hunique _ _ h
          rw [h.valid] at hvalid
          cases hvalid
        cases hh with
        | plain kind' version' h _ => exact hno _ _ h
        | ruled kind' version' url data h _ _ => exact hno _ _ h
      · rw [hrun]
        exact Prog.bind_of_error (by rw [run_ofExcept, hvalid])
    | ok u =>
      have hacc : Accepted E w obj kind version := ⟨hn, hk, hvalid⟩
      have hvalid' : ofExcept (validateData E kind obj.data) w₁ = (.ok (), w₁) := by
        rw [run_ofExcept, hvalid]
      have hrun₂ := hrun.trans (Prog.bind_of_ok hvalid')
      cases hurl : kind.data.url with
      | none =>
        simp only [hurl] at hrun₂
        exact .inr ⟨obj, w₁, .plain kind version hacc hurl, hrun₂⟩
      | some url =>
        simp only [hurl] at hrun₂
        rw [hrun₂]
        have hother : ∀ item w', Hooked E w obj item w' → ∃ data, Applied E w obj url version data := by
          intro item w' hh
          cases hh with
          | plain kind' version' h hurl' =>
            obtain ⟨rfl, rfl⟩ := hunique _ _ h
            rw [hurl] at hurl'
            cases hurl'
          | ruled kind' version' url' data h hurl' happlied =>
            obtain ⟨rfl, rfl⟩ := hunique _ _ h
            obtain rfl := Option.some.inj (hurl.symm.trans hurl')
            exact ⟨data, happlied⟩
        by_cases hv : validUrl url
        · have hctrl : ctrlClient (δ := δ) url w₁ = (.ok (), w₁) := by
            unfold ctrlClient
            rw [if_pos hv]
            rfl
          rw [Prog.bind_of_ok hctrl]
          by_cases happ : E.fault w₁.calls = none ∧
              ∃ data, E.applyRule (w₁.calls + 1) ⟨url, version, obj.name⟩ obj.data = .ok data
          · obtain ⟨hf, data, hdata⟩ := happ
            refine .inr ⟨{ obj with data := data }, _, .ruled kind version url data hacc hurl ⟨hv, hf, hdata⟩, ?_⟩
            exact Prog.bind_of_ok (applyRule_ok hf hdata)
          · obtain ⟨e, hfail⟩ := applyRule_error happ
            refine .inl ⟨fun item w' hh => ?_, e, parseCalls obj.kind + 2, Prog.bind_of_error hfail⟩
            obtain ⟨data, hdata⟩ := hother item w' hh
            exact happ ⟨hdata.answers, data, hdata.data⟩
        · have hctrl : ctrlClient (δ := δ) url w₁ = (.error (internalServerError ("Invalid url: " ++ url)), w₁) := by
            unfold ctrlClient
            rw [if_neg hv]
            rfl
          refine .inl ⟨fun item w' hh => ?_, _, parseCalls obj.kind + 1, Prog.bind_of_error hctrl⟩
          obtain ⟨data, hdata⟩ := hother item w' hh
          exact hv hdata.valid
  · obtain ⟨e, k, hrun⟩ := (reads_kindOf (E := E) obj.kind).error w hfound
    refine .inl ⟨fun item w' hh => ?_, e, k, Prog.bind_of_error hrun⟩
    cases hh with
    | plain kind version h _ => exact hfound ⟨h.answers, _, h.found⟩
    | ruled kind version url data h _ _ => exact hfound ⟨h.answers, _, h.found⟩

/-! ## The rows -/

theorem readResourceObj_world (pk : String) (w : World δ) : (readResourceObj E pk w).2 = w.tick := by
  rw [readResourceObj, Prog.run_bind]
  rcases h : readResource E pk w with ⟨e | r, w₁⟩
  · exact (congrArg Prod.snd h).symm.trans (query_world _ w)
  · exact (congrArg Prod.snd h).symm.trans (query_world _ w)

/-- what a creation of the rows finds: the kind is parsed, and the spec can be stored -/
structure CreateBegins (E : Env δ) (w : World δ) (item : ResourcePartial δ) (p : String × String) : Prop where
  answers : E.Answers w (parseCalls item.kind + 1)
  parsed : parsedKind E w.db item.kind = .ok p
  uuid : w.db.specs.find (E.uuid (w.calls + parseCalls item.kind)) = none

/-- the row can be stored too -/
structure CreateCompletes (E : Env δ) (w : World δ) (item : ResourcePartial δ) : Prop where
  answers : E.fault (w.calls + (parseCalls item.kind + 1)) = none
  free : w.db.resources.find item.name = none

/-- **What a creation of the rows does**: nothing, or it stores the spec, or the spec and the row. -/
theorem createResourceFromSpec_cases {item : ResourcePartial δ} {w w' : World δ} {r : Except HttpError (Resource δ)}
    (h : createResourceFromSpec E item w = (r, w')) :
    (∃ e k, r = .error e ∧ w' = w.after k w.db ∧ ∀ p, ¬ CreateBegins E w item p) ∨
    ∃ p t, CreateBegins E w item p ∧
      w.db.specs.insert (resourceRow item.name p.2 item.data item.metadata (E.uuid (w.calls + parseCalls item.kind))) =
        some t ∧
      ((∃ e, r = .error e ∧ ¬ CreateCompletes E w item ∧
          w' = w.after (parseCalls item.kind + 2) { w.db with specs := t }) ∨
        ∃ res rt, r = .ok res ∧ CreateCompletes E w item ∧
          w.db.resources.insert ⟨item.name, p.1, E.uuid (w.calls + parseCalls item.kind)⟩ = some rt ∧
          w' = w.after (parseCalls item.kind + 2) { w.db with specs := t, resources := rt }) := by
  by_cases hparsed : E.Answers w (parseCalls item.kind) ∧ ∃ p, parsedKind E w.db item.kind = .ok p
  · obtain ⟨hn, p, hp⟩ := hparsed
    rw [createResourceFromSpec, Prog.bind_of_ok ((reads_parseKind item.kind).ok w p hn hp)] at h
    set w₁ := w.after (parseCalls item.kind) w.db with hw₁
    change (createSpec E (resourceRow item.name p.2 item.data item.metadata) >>= _) w₁ = _ at h
    have hbegins : (E.fault w₁.calls = none ∧ w₁.db.specs.find (E.uuid w₁.calls) = none) ↔ CreateBegins E w item p :=
      ⟨fun hs => ⟨Env.answers_succ.2 ⟨hn, hs.1⟩, hp, hs.2⟩, fun hs => ⟨(Env.answers_succ.1 hs.answers).2, hs.uuid⟩⟩
    by_cases hspec : E.fault w₁.calls = none ∧ w₁.db.specs.find (E.uuid w₁.calls) = none
    · obtain ⟨t, ht, hrun⟩ := createSpec_ok (E := E) (resourceRow item.name p.2 item.data item.metadata) hspec.1 hspec.2
      rw [Prog.bind_of_ok hrun, hw₁, World.after_after] at h
      set w₂ := w.after (parseCalls item.kind + 1) { w.db with specs := t } with hw₂
      change (createResource E ⟨item.name, p.1, E.uuid w₁.calls⟩ >>= _) w₂ = _ at h
      refine .inr ⟨p, t, hbegins.1 hspec, ht, ?_⟩
      have hnew : (t.find (E.uuid w₁.calls)).isSome := Option.isSome_iff_exists.2 ⟨_, Table.find_insert_self ht⟩
      by_cases hrow : E.fault w₂.calls = none ∧ w.db.resources.find item.name = none
      · obtain ⟨rt, hrt⟩ := Table.insert_of_find (r := (⟨item.name, p.1, E.uuid w₁.calls⟩ : ResourceDb)) hrow.2
        have hins : insertResource E ⟨item.name, p.1, E.uuid w₁.calls⟩ w₂.db =
            .ok { w.db with specs := t, resources := rt } := by
          have hrt' : w₂.db.resources.insert ⟨item.name, p.1, E.uuid w₁.calls⟩ = some rt := hrt
          unfold insertResource
          rw [hrt']
          exact if_pos hnew
        have hcreated : createResource E ⟨item.name, p.1, E.uuid w₁.calls⟩ w₂ = _ :=
          Prog.bind_of_ok (exec_of_ok hrow.1 hins)
        rw [Prog.bind_of_ok hcreated] at h
        obtain ⟨rfl, rfl⟩ := Prod.mk.inj h
        refine .inr ⟨_, rt, rfl, ⟨hrow.1, hrow.2⟩, hrt, ?_⟩
        rw [hw₂, World.after_after]
      · have hfail : ∃ e, createResource E ⟨item.name, p.1, E.uuid w₁.calls⟩ w₂ = (.error e, w₂.tick) := by
          cases hf : E.fault w₂.calls with
          | some e => exact ⟨e, Prog.bind_of_error (by rw [exec, call_of_fault hf])⟩
          | none =>
            have hnone : w.db.resources.insert (⟨item.name, p.1, E.uuid w₁.calls⟩ : ResourceDb) = none :=
              Table.insert_eq_none.2 fun hfree => hrow ⟨hf, hfree⟩
            have hins : insertResource E ⟨item.name, p.1, E.uuid w₁.calls⟩ w₂.db = .error (uniqueViolation E "ResourceDb") := by
              have hnone' : w₂.db.resources.insert ⟨item.name, p.1, E.uuid w₁.calls⟩ = none := hnone
              unfold insertResource
              rw [hnone']
            exact ⟨_, Prog.bind_of_error (exec_of_error hf hins)⟩
        obtain ⟨e, hfail⟩ := hfail
        rw [Prog.bind_of_error hfail] at h
        obtain ⟨rfl, rfl⟩ := Prod.mk.inj h
        refine .inl ⟨e, rfl, fun hc => hrow ⟨hc.answers, hc.free⟩, ?_⟩
        rw [hw₂, World.tick, World.after_after, World.after_db]
    · obtain ⟨e, hrun⟩ := createSpec_error (E := E) (w := w₁) (resourceRow item.name p.2 item.data item.metadata) hspec
      rw [Prog.bind_of_error hrun] at h
      obtain ⟨rfl, rfl⟩ := Prod.mk.inj h
      refine .inl ⟨e, parseCalls item.kind + 1, rfl, ?_, fun p' hb => hspec (hbegins.2 ?_)⟩
      · rw [hw₁, World.tick, World.after_after, World.after_db]
      · rwa [Except.ok.inj (hb.parsed.symm.trans hp)] at hb
  · obtain ⟨e, k, hrun⟩ := (reads_parseKind (E := E) item.kind).error w hparsed
    rw [createResourceFromSpec, Prog.bind_of_error hrun] at h
    obtain ⟨rfl, rfl⟩ := Prod.mk.inj h
    exact .inl ⟨e, k, rfl, rfl, fun p hb => hparsed ⟨(Env.answers_succ.1 hb.answers).1, p, hb.parsed⟩⟩

/-- what an update of the row finds: the resource, its kind is parsed, and the spec can be stored -/
structure UpdateBegins (E : Env δ) (w : World δ) (item : ResourcePartial δ) (resource : Resource δ)
    (p : String × String) : Prop where
  answers : E.Answers w (1 + parseCalls item.kind + 1)
  resource : resourceOf w.db item.name = .ok resource
  parsed : parsedKind E w.db item.kind = .ok p
  uuid : w.db.specs.find (E.uuid (w.calls + (1 + parseCalls item.kind))) = none

/-- the row of a resource points to another spec -/
def pointResource (db : Tables δ) (name : String) (specKey : Uuid) : Tables δ :=
  { db with
    resources := db.resources.update name (fun r => { r with specKey := specKey }) (ResourceDb.key_repointed specKey) }

theorem resourceOf_ok {db : Tables δ} {pk : String} {resource : Resource δ} :
    resourceOf db pk = .ok resource ↔
      ∃ row spec, db.resources.find pk = some row ∧ db.specs.find row.specKey = some spec ∧
        resource = ⟨row.kind, toResourceSpec spec⟩ := by
  unfold resourceOf
  cases hrow : db.resources.find pk with
  | none => simp [orNotFound, bind, Except.bind]
  | some row =>
    cases hspec : db.specs.find row.specKey with
    | none => simp [hspec, orNotFound, bind, Except.bind]
    | some spec =>
      simp [hspec, orNotFound, bind, Except.bind, pure, Except.pure, eq_comm]

/-- **What an update of the row does**: nothing, or it stores the spec, or the row points to the spec too. -/
theorem updateResourceFromSpec_cases {item : ResourcePartial δ} {w w' : World δ} {r : Except HttpError (Resource δ)}
    (h : updateResourceFromSpec E item w = (r, w')) :
    (∃ e k, r = .error e ∧ w' = w.after k w.db ∧ ∀ resource p, ¬ UpdateBegins E w item resource p) ∨
    ∃ resource p t, UpdateBegins E w item resource p ∧
      w.db.specs.insert (resourceRow resource.spec.resourceKey p.2 item.data item.metadata
        (E.uuid (w.calls + (1 + parseCalls item.kind)))) = some t ∧
      ((∃ e, r = .error e ∧ E.fault (w.calls + (1 + parseCalls item.kind + 1)) ≠ none ∧
          w' = w.after (1 + parseCalls item.kind + 2) { w.db with specs := t }) ∨
        ∃ res, r = .ok res ∧ E.fault (w.calls + (1 + parseCalls item.kind + 1)) = none ∧
          w' = w.after (1 + parseCalls item.kind + 2)
            (pointResource { w.db with specs := t } item.name (E.uuid (w.calls + (1 + parseCalls item.kind))))) := by
  set n := 1 + parseCalls item.kind with hn
  have hreads : Reads E (do
      let resource ← readResourceObj E item.name
      let p ← parseKind E item.kind
      return (resource, p) : Io δ (Resource δ × String × String)) n fun db => do
        let resource ← resourceOf db item.name
        let p ← parsedKind E db item.kind
        return (resource, p) :=
    reads_bind (reads_readResourceObj _) fun _ => reads_bind (reads_parseKind _) fun _ => reads_pure _
  have hfound : ∀ a : Resource δ × String × String, (do
      let resource ← resourceOf w.db item.name
      let p ← parsedKind E w.db item.kind
      return (resource, p)) = Except.ok a ↔ resourceOf w.db item.name = .ok a.1 ∧ parsedKind E w.db item.kind = .ok a.2 := by
    intro a
    cases resourceOf w.db item.name <;> cases parsedKind E w.db item.kind <;>
      simp [bind, Except.bind, pure, Except.pure, Prod.ext_iff]
  have hrun : updateResourceFromSpec E item w = ((do
      let resource ← readResourceObj E item.name
      let p ← parseKind E item.kind
      return (resource, p) : Io δ (Resource δ × String × String)) >>= fun a => do
        let spec ← createSpec E (resourceRow a.1.spec.resourceKey a.2.2 item.data item.metadata)
        updateResource E item.name spec.key
        return ⟨a.1.kind, toResourceSpec spec⟩) w := by
    simp only [bind_assoc, pure_bind]
    rfl
  rw [hrun] at h
  by_cases hfirst : E.Answers w n ∧ ∃ a, (do
      let resource ← resourceOf w.db item.name
      let p ← parsedKind E w.db item.kind
      return (resource, p)) = Except.ok a
  · obtain ⟨hans, a, ha⟩ := hfirst
    rw [Prog.bind_of_ok (hreads.ok w a hans ha)] at h
    obtain ⟨hres, hp⟩ := (hfound a).1 ha
    set w₁ := w.after n w.db with hw₁
    have hbegins : (E.fault w₁.calls = none ∧ w₁.db.specs.find (E.uuid w₁.calls) = none) ↔ UpdateBegins E w item a.1 a.2 :=
      ⟨fun hs => ⟨Env.answers_succ.2 ⟨hans, hs.1⟩, hres, hp, hs.2⟩,
        fun hs => ⟨(Env.answers_succ.1 hs.answers).2, hs.uuid⟩⟩
    by_cases hspec : E.fault w₁.calls = none ∧ w₁.db.specs.find (E.uuid w₁.calls) = none
    · obtain ⟨t, ht, hrun⟩ := createSpec_ok (E := E)
        (resourceRow a.1.spec.resourceKey a.2.2 item.data item.metadata) hspec.1 hspec.2
      rw [Prog.bind_of_ok hrun, hw₁, World.after_after] at h
      set w₂ := w.after (n + 1) { w.db with specs := t } with hw₂
      change (updateResource E item.name (E.uuid w₁.calls) >>= _) w₂ = _ at h
      refine .inr ⟨a.1, a.2, t, hbegins.1 hspec, ht, ?_⟩
      cases hf : E.fault w₂.calls with
      | some e =>
        have hfail : updateResource E item.name (E.uuid w₁.calls) w₂ = (.error e, w₂.tick) := by
          rw [updateResource, exec, call_of_fault hf]
        rw [Prog.bind_of_error hfail] at h
        obtain ⟨rfl, rfl⟩ := Prod.mk.inj h
        refine .inl ⟨e, rfl, ?_, ?_⟩
        · rw [show E.fault (w.calls + (n + 1)) = some e from hf]
          exact Option.some_ne_none e
        · rw [hw₂, World.tick, World.after_after, World.after_db]
      | none =>
        obtain ⟨row, spec, hrow, -, -⟩ := resourceOf_ok.1 hres
        have hnew : (t.find (E.uuid w₁.calls)).isSome := Option.isSome_iff_exists.2 ⟨_, Table.find_insert_self ht⟩
        have hset : setResource E item.name (E.uuid w₁.calls) w₂.db =
            .ok (pointResource { w.db with specs := t } item.name (E.uuid w₁.calls)) := by
          have hfind : w₂.db.resources.find item.name = some row := hrow
          unfold setResource
          rw [hfind]
          exact if_pos hnew
        have hupdated : updateResource E item.name (E.uuid w₁.calls) w₂ = _ := exec_of_ok hf hset
        rw [Prog.bind_of_ok hupdated] at h
        obtain ⟨rfl, rfl⟩ := Prod.mk.inj h
        refine .inr ⟨_, rfl, hf, ?_⟩
        rw [hw₂, World.after_after]
        rfl
    · obtain ⟨e, hrun⟩ := createSpec_error (E := E) (w := w₁)
        (resourceRow a.1.spec.resourceKey a.2.2 item.data item.metadata) hspec
      rw [Prog.bind_of_error hrun] at h
      obtain ⟨rfl, rfl⟩ := Prod.mk.inj h
      refine .inl ⟨e, n + 1, rfl, ?_, fun resource p hb => hspec (hbegins.2 ?_)⟩
      · rw [hw₁, World.tick, World.after_after, World.after_db]
      · rwa [Except.ok.inj (hb.resource.symm.trans hres), Except.ok.inj (hb.parsed.symm.trans hp)] at hb
  · obtain ⟨e, k, hrun⟩ := hreads.error w hfirst
    rw [Prog.bind_of_error hrun] at h
    obtain ⟨rfl, rfl⟩ := Prod.mk.inj h
    refine .inl ⟨e, k, rfl, rfl, fun resource p hb => hfirst ⟨(Env.answers_succ.1 hb.answers).1, (resource, p), ?_⟩⟩
    exact (hfound _).2 ⟨hb.resource, hb.parsed⟩

end Nanocl.Objects
