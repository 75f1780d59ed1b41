/-
Rules that are updated at once (`update_rules`): one `add_rule` for each, which all run concurrently.

A call puts its rule together, writing the upstreams and the secrets it meets, writes the parts over the files of the rule, and
has nginx test everything that is enabled by then, also by the other calls. If nginx refuses, it deletes the files of its rule.
A step is one operation on the directory, or one test.

- `addRule_alone`: a call that runs alone is `add_rule`.
- `Settles`: what a call can leave of the files of its rule, if no other call is about them.
- `update_rules_settles`: whatever the order of the steps, each call settles, and only a refusal of nginx removes files, which
  are those of the name of the call.
- `refused_update_removes`: a rule that moves to a port that is taken is removed, and takes another rule with it.
-/
import Nanocl.Lib.Concurrent
import Nanocl.Proxy.Enabled

namespace Nanocl.Proxy.Nginx

open Lib

variable {ι φ : Type} (ipText : ι → String) (dir : String)

/-! ## Steps -/

/-- one operation on the directory of the store -/
inductive Edit (φ : Type) where
  | file (kind : NginxRuleKind) (name : String) (data : Option (Conf φ))
  | link (kind : NginxRuleKind) (name : String) (enabled : Bool)
  | secret (path content : String)

def Store.edit (s : Store φ) : Edit φ → Store φ
  | .file kind name data =>
    { s with available := Function.update s.available kind (Function.update (s.available kind) name data) }
  | .link kind name enabled =>
    { s with enabled := Function.update s.enabled kind (Function.update (s.enabled kind) name enabled) }
  | .secret path content => s.writeSecret path content

def Store.edits (s : Store φ) (l : List (Edit φ)) : Store φ := l.foldl Store.edit s

def Write.edits : Write φ → List (Edit φ)
  | .conf kind name data => [.file kind name (some data), .link kind name true]
  | .secret path content => [.secret path content]

/-- the operations of `del_rule` -/
def delEdits (name : String) : List (Edit φ) :=
  [.file .site name none, .link .site name false, .file .stream name none, .link .stream name false]

theorem edits_write (s : Store φ) (w : Write φ) : s.edits w.edits = s.write w := by
  cases w <;> rfl

theorem edits_writes (s : Store φ) (writes : List (Write φ)) :
    s.edits (writes.flatMap Write.edits) = writes.foldl Store.write s := by
  induction writes generalizing s with
  | nil => rfl
  | cons w writes ih =>
    rw [List.flatMap_cons, Store.edits, List.foldl_append, List.foldl_cons, ← edits_write, ← ih]
    rfl

theorem edits_delEdits (s : Store φ) (name : String) : s.edits (delEdits name) = delRule name s := rfl

/-- the parts, as writes -/
def partWrites (name : String) (parts : Parts φ) : List (Write φ) :=
  (if parts.stream ≠ [] then [.conf .stream name (.stream parts.stream)] else []) ++
    if parts.http ≠ [] then [.conf .site name (.http parts.http)] else []

theorem foldl_partWrites (name : String) (parts : Parts φ) (s : Store φ) :
    (partWrites name parts).foldl Store.write s = writeParts name parts s := by
  unfold partWrites writeParts
  split_ifs <;> rfl

/-! ## Calls -/

/-- a call of `add_rule`, with what the daemon and nginx answer to it -/
structure Call (ι φ : Type) where
  client : NanocldClient
  test : Store φ → Except String Unit
  name : String
  rule : ResourceProxyRule ι φ

namespace Call

/-- what the loop of the call makes -/
def generated (c : Call ι φ) : List (Write φ) × Except String (Parts φ) :=
  generate c.client ipText dir c.name c.rule.rules

/-- the writes of the call -/
def writes (c : Call ι φ) : List (Write φ) :=
  (c.generated ipText dir).1 ++
    match (c.generated ipText dir).2 with
    | .ok parts => partWrites c.name parts
    | .error _ => []

/-- the end of the call: the test, and the deletion of the rule if nginx refuses -/
def verdict (c : Call ι φ) : Task (Store φ) (Except String Unit) :=
  match (c.generated ipText dir).2 with
  | .error e => .done (.error e)
  | .ok _ => .step id fun s =>
    match c.test s with
    | .ok () => .done (.ok ())
    | .error e => .doAll ((delEdits c.name).map fun e s => s.edit e) (.done (.error e))

/-- the call, step by step -/
def task (c : Call ι φ) : Task (Store φ) (Except String Unit) :=
  .doAll (((c.writes ipText dir).flatMap Write.edits).map fun e s => s.edit e) (c.verdict ipText dir)

end Call

theorem foldl_edit (l : List (Edit φ)) (s : Store φ) :
    (l.map fun e (s : Store φ) => s.edit e).foldl (fun s act => act s) s = s.edits l := by
  rw [List.foldl_map]
  rfl

/-- **A call that runs alone** is `add_rule`. -/
theorem addRule_alone (c : Call ι φ) (s : Store φ) :
    (c.task ipText dir).alone s = addRule c.client ipText dir c.test c.name c.rule s := by
  rw [Call.task, Task.alone_doAll, foldl_edit, edits_writes, Call.writes, Call.verdict, List.foldl_append]
  unfold addRule Call.generated
  rcases generate c.client ipText dir c.name c.rule.rules with ⟨writes, parts⟩
  cases parts with
  | error e => rfl
  | ok parts =>
    simp only [foldl_partWrites, Task.alone]
    cases htest : c.test (writeParts c.name parts (writes.foldl Store.write s)) with
    | ok u => simp [Task.alone]
    | error e => simp [Task.alone_doAll, foldl_edit, edits_delEdits, Task.alone]

/-! ## What a call leaves -/

/-- no other call is about the name of the call, and it is the name of no upstream -/
def Apart {κ : Type} (calls : κ → Call ι φ) (i : κ) : Prop :=
  (∀ j, j ≠ i → (calls j).name ≠ (calls i).name) ∧
    ∀ j kind data, .conf kind (calls i).name data ∉ ((calls j).generated ipText dir).1

/-- what a call leaves of the files of its rule, where nginx tested states of a class -/
inductive Settles (c : Call ι φ) (s₀ : Store φ) (tested : Store φ → Prop) : Except String Unit → Store φ → Prop
  /-- an address is not to be had: the files are as they were -/
  | unresolved (e : String) (s : Store φ) : (c.generated ipText dir).2 = .error e →
      (∀ kind, s.file kind c.name = s₀.file kind c.name) → Settles c s₀ tested (.error e) s
  /-- nginx accepts: the parts are enabled, and the file of an empty part is as it was -/
  | updated (parts : Parts φ) (s : Store φ) : (c.generated ipText dir).2 = .ok parts →
      s.file .site c.name = (if parts.http = [] then s₀.file .site c.name else some (.http parts.http)) →
      s.file .stream c.name = (if parts.stream = [] then s₀.file .stream c.name else some (.stream parts.stream)) →
        Settles c s₀ tested (.ok ()) s
  /-- nginx refuses what is enabled: nothing of the rule is enabled -/
  | refused (e : String) (parts : Parts φ) (s t : Store φ) : (c.generated ipText dir).2 = .ok parts → tested t →
      c.test t = .error e → (∀ kind, s.file kind c.name = none) → Settles c s₀ tested (.error e) s

/-! ## Files of one name -/

/-- the name that an operation is about -/
def Edit.about : Edit φ → Option String
  | .file _ name _ | .link _ name _ => some name
  | .secret .. => none

/-- the same files of the name are available and enabled -/
def SameAt (name : String) (s t : Store φ) : Prop :=
  ∀ kind, s.available kind name = t.available kind name ∧ s.enabled kind name = t.enabled kind name

section SameAt

variable {name : String} {s t : Store φ}

theorem SameAt.file (h : SameAt name s t) (kind : NginxRuleKind) : s.file kind name = t.file kind name := by
  rw [Store.file, Store.file, (h kind).1, (h kind).2]

theorem update_update_congr {κ α : Type} [DecidableEq κ] {f g : κ → String → α} {k k' : κ} {n n' : String} {a : α}
    (h : f k' n' = g k' n') : Function.update f k (Function.update (f k) n a) k' n' =
      Function.update g k (Function.update (g k) n a) k' n' := by
  by_cases hk : k' = k
  · subst hk
    by_cases hn : n' = n
    · subst hn
      simp
    · simpa [hn] using h
  · simpa [hk] using h

theorem SameAt.edit (h : SameAt name s t) (e : Edit φ) : SameAt name (s.edit e) (t.edit e) := by
  intro kind
  cases e with
  | file kind' name' data => exact ⟨update_update_congr (h kind).1, (h kind).2⟩
  | link kind' name' enabled => exact ⟨(h kind).1, update_update_congr (h kind).2⟩
  | secret path content => exact h kind

theorem available_edit_of_ne {e : Edit φ} {kind : NginxRuleKind} (he : ∀ data, e ≠ .file kind name data) (s : Store φ) :
    (s.edit e).available kind name = s.available kind name := by
  cases e with
  | file kind' name' data =>
    by_cases hk : kind = kind'
    · subst hk
      have hne : name ≠ name' := fun heq => he data (heq ▸ rfl)
      simp [Store.edit, hne]
    · simp [Store.edit, hk]
  | link kind' name' enabled => rfl
  | secret path content => rfl

theorem enabled_edit_of_ne {e : Edit φ} {kind : NginxRuleKind} (he : ∀ enabled, e ≠ .link kind name enabled) (s : Store φ) :
    (s.edit e).enabled kind name = s.enabled kind name := by
  cases e with
  | link kind' name' enabled =>
    by_cases hk : kind = kind'
    · subst hk
      have hne : name ≠ name' := fun heq => he enabled (heq ▸ rfl)
      simp [Store.edit, hne]
    · simp [Store.edit, hk]
  | file kind' name' data => rfl
  | secret path content => rfl

/-- an operation about another name -/
theorem SameAt.edit_of_ne (h : SameAt name s t) {e : Edit φ} (he : e.about ≠ some name) : SameAt name (s.edit e) t := by
  intro kind
  rw [available_edit_of_ne, enabled_edit_of_ne]
  · exact h kind
  · rintro enabled rfl
    exact he rfl
  · rintro data rfl
    exact he rfl

theorem edits_append (s : Store φ) (l m : List (Edit φ)) : s.edits (l ++ m) = (s.edits l).edits m := List.foldl_append

end SameAt

/-! ## Where a call is -/

/-- the operations of a call -/
def Call.edits (c : Call ι φ) : List (Edit φ) := (c.writes ipText dir).flatMap Write.edits ++ delEdits c.name

/-- the operations that a call has left -/
def remaining (rest : List (Edit φ)) (t : Task (Store φ) (Except String Unit)) : Task (Store φ) (Except String Unit) :=
  .doAll (rest.map fun e s => s.edit e) t

/-- nginx has refused the parts of the call -/
def Refused (c : Call ι φ) (t : Task (Store φ) (Except String Unit)) : Prop :=
  ∃ parts e rest, (c.generated ipText dir).2 = .ok parts ∧ t = remaining rest (.done (.error e))

/-- where a call is, with an assertion about the operations it has done and the state -/
inductive At (c : Call ι φ) (Φ : List (Edit φ) → Store φ → Prop) (tested : Store φ → Prop)
    (t : Task (Store φ) (Except String Unit)) (s : Store φ) : Prop
  /-- it writes -/
  | writing (pre rest : List (Edit φ)) : (c.writes ipText dir).flatMap Write.edits = pre ++ rest →
      t = remaining rest (c.verdict ipText dir) → Φ pre s → At c Φ tested t s
  /-- nginx has accepted -/
  | accepted (parts : Parts φ) (u : Store φ) : (c.generated ipText dir).2 = .ok parts → tested u → c.test u = .ok () →
      t = .done (.ok ()) → Φ ((c.writes ipText dir).flatMap Write.edits) s → At c Φ tested t s
  /-- nginx has refused, and the call deletes -/
  | deleting (parts : Parts φ) (e : String) (u : Store φ) (pre rest : List (Edit φ)) :
      (c.generated ipText dir).2 = .ok parts → tested u → c.test u = .error e → delEdits c.name = pre ++ rest →
      t = remaining rest (.done (.error e)) → Φ ((c.writes ipText dir).flatMap Write.edits ++ pre) s → At c Φ tested t s

section At

variable {ipText dir} {c : Call ι φ} {Φ : List (Edit φ) → Store φ → Prop} {s₀ s : Store φ} {tested : Store φ → Prop}
  {t : Task (Store φ) (Except String Unit)} {act : Store φ → Store φ} {next : Store φ → Task (Store φ) (Except String Unit)}

/-- a step is the test, a write, or a deletion after nginx has refused -/
theorem At.act_cases (h : At ipText dir c Φ tested (.step act next) s) :
    act = id ∨ (∃ pre e rest, (c.writes ipText dir).flatMap Write.edits = pre ++ e :: rest ∧ Φ pre s ∧ act = fun s => s.edit e) ∨
      Refused ipText dir c (.step act next) ∧ ∃ e ∈ delEdits c.name, act = fun s => s.edit e := by
  obtain ⟨pre, rest, hall, ht, hΦ⟩ | ⟨parts, u, -, -, -, ht, -⟩ | ⟨parts, e, u, pre, rest, hparts, -, -, hall, ht, -⟩ := h
  · cases rest with
    | nil =>
      simp only [remaining, List.map_nil, Task.doAll, Call.verdict] at ht
      split at ht
      · cases ht
      · exact .inl (Task.step.inj ht).1
    | cons e rest => exact .inr (.inl ⟨pre, e, rest, hall, hΦ, (Task.step.inj ht).1⟩)
  · cases ht
  · cases rest with
    | nil => cases ht
    | cons e' rest => exact .inr (.inr ⟨⟨parts, e, _, hparts, ht⟩, e', by simp [hall], (Task.step.inj ht).1⟩)

theorem At.act_mem (h : At ipText dir c Φ tested (.step act next) s) :
    act = id ∨ ∃ e ∈ c.edits ipText dir, act = fun s => s.edit e := by
  rcases h.act_cases with h | ⟨pre, e, rest, hall, -, hact⟩ | ⟨-, e, he, hact⟩
  · exact .inl h
  · exact .inr ⟨e, List.mem_append_left _ (by simp [hall]), hact⟩
  · exact .inr ⟨e, List.mem_append_right _ he, hact⟩

/-- a call that nginx has refused goes on to its error -/
theorem Refused.goes_on (h : Refused ipText dir c (.step act next)) (s : Store φ) : Refused ipText dir c (next s) := by
  obtain ⟨parts, e, rest, hparts, ht⟩ := h
  cases rest with
  | nil => cases ht
  | cons e' rest =>
    obtain ⟨rfl, rfl⟩ := Task.step.inj ht
    exact ⟨parts, e, rest, hparts, rfl⟩

/-- a step of the call, if its operations keep the assertion -/
theorem At.own (hΦ : ∀ pre, ∀ e ∈ c.edits ipText dir, Φ pre s → Φ (pre ++ [e]) (s.edit e)) (hs : tested s)
    (h : At ipText dir c Φ tested (.step act next) s) : At ipText dir c Φ tested (next s) (act s) := by
  obtain ⟨pre, rest, hall, ht, hpre⟩ | ⟨parts, u, -, -, -, ht, -⟩ | ⟨parts, e, u, pre, rest, hparts, hu, htest, hall, ht, hpre⟩ := h
  · cases rest with
    | nil =>
      rw [List.append_nil] at hall
      simp only [remaining, List.map_nil, Task.doAll, Call.verdict] at ht
      split at ht
      · cases ht
      · next parts hparts =>
        obtain ⟨rfl, rfl⟩ := Task.step.inj ht
        dsimp only
        split
        · next htest => exact .accepted parts s hparts hs htest rfl (hall ▸ hpre)
        · next e htest => exact .deleting parts e s [] _ hparts hs htest rfl rfl (by rwa [hall, List.append_nil])
    | cons e rest =>
      obtain ⟨rfl, rfl⟩ := Task.step.inj ht
      exact .writing (pre ++ [e]) rest (by simp [hall]) rfl (hΦ pre e (List.mem_append_left _ (by simp [hall])) hpre)
  · cases ht
  · cases rest with
    | nil => cases ht
    | cons e' rest =>
      obtain ⟨rfl, rfl⟩ := Task.step.inj ht
      refine .deleting parts e u (pre ++ [e']) rest hparts hu htest (by simp [hall]) rfl ?_
      rw [← List.append_assoc]
      exact hΦ _ e' (List.mem_append_right _ (by simp [hall])) hpre

/-- another assertion, also about another state -/
theorem At.imp {Ψ : List (Edit φ) → Store φ → Prop} {s' : Store φ} (h : At ipText dir c Φ tested t s)
    (hΦ : ∀ pre, Φ pre s → Ψ pre s') : At ipText dir c Ψ tested t s' := by
  obtain ⟨pre, rest, hall, ht, hpre⟩ | ⟨parts, u, hparts, hu, htest, ht, hpre⟩ |
    ⟨parts, e, u, pre, rest, hparts, hu, htest, hall, ht, hpre⟩ := h
  · exact .writing pre rest hall ht (hΦ _ hpre)
  · exact .accepted parts u hparts hu htest ht (hΦ _ hpre)
  · exact .deleting parts e u pre rest hparts hu htest hall ht (hΦ _ hpre)

/-- an operation of a call is about the files of its rule, or one of the writes of its loop -/
theorem cases_of_mem_edits {e : Edit φ} (h : e ∈ c.edits ipText dir) : e.about = some c.name ∨
    (∃ kind name data, .conf kind name data ∈ (c.generated ipText dir).1 ∧
      (e = .file kind name (some data) ∨ e = .link kind name true)) ∨
    ∃ path content, .secret path content ∈ (c.generated ipText dir).1 ∧ e = .secret path content := by
  rcases List.mem_append.1 h with h | h
  · obtain ⟨w, hw, he⟩ := List.mem_flatMap.1 h
    rcases List.mem_append.1 hw with hw | hw
    · right
      cases w with
      | conf kind name data => exact .inl ⟨kind, name, data, hw, by simpa [Write.edits] using he⟩
      | secret path content => exact .inr ⟨path, content, hw, by simpa [Write.edits] using he⟩
    · left
      split at hw
      · next parts _ =>
        have hname : ∃ kind data, w = .conf kind c.name data := by
          rcases List.mem_append.1 hw with hw | hw
          · split_ifs at hw
            · exact ⟨_, _, List.mem_singleton.1 hw⟩
            · cases hw
          · split_ifs at hw
            · exact ⟨_, _, List.mem_singleton.1 hw⟩
            · cases hw
        obtain ⟨kind, data, rfl⟩ := hname
        simp only [Write.edits, List.mem_cons, List.not_mem_nil, or_false] at he
        rcases he with rfl | rfl <;> rfl
      · cases hw
  · left
    simp only [delEdits, List.mem_cons, List.not_mem_nil, or_false] at h
    rcases h with rfl | rfl | rfl | rfl <;> rfl

/-- a call that is done and apart from the others has settled -/
theorem At.settles {result : Except String Unit}
    (h : At ipText dir c (fun pre s => SameAt c.name s (s₀.edits pre)) tested (.done result) s)
    (hown : ∀ kind data, .conf kind c.name data ∉ (c.generated ipText dir).1) : Settles ipText dir c s₀ tested result s := by
  have hgenerated : ∀ kind, ((c.generated ipText dir).1.foldl Store.write s₀).file kind c.name = s₀.file kind c.name :=
    fun kind => file_writes_of_notMem (hown kind)
  obtain ⟨pre, rest, hall, ht, hsame⟩ | ⟨parts, u, hparts, -, -, ht, hsame⟩ |
    ⟨parts, e, u, pre, rest, hparts, hu, htest, hall, ht, hsame⟩ := h
  · cases rest with
    | cons e rest => cases ht
    | nil =>
      simp only [remaining, List.map_nil, Task.doAll, Call.verdict] at ht
      split at ht
      · next e herror =>
        obtain rfl := Task.done.inj ht
        rw [List.append_nil] at hall
        refine .unresolved e s herror fun kind => ?_
        rw [hsame.file kind, ← hall, edits_writes, Call.writes, herror]
        simpa using hgenerated kind
      · cases ht
  · obtain rfl := Task.done.inj ht
    have hfile := fun kind => hsame.file kind
    simp only [edits_writes, Call.writes, hparts, List.foldl_append, foldl_partWrites] at hfile
    obtain ⟨hsite, hstream⟩ := file_writeParts c.name parts ((c.generated ipText dir).1.foldl Store.write s₀)
    exact .updated parts s hparts (by rw [hfile, hsite, hgenerated]) (by rw [hfile, hstream, hgenerated])
  · cases rest with
    | cons e rest => cases ht
    | nil =>
      obtain rfl := Task.done.inj ht
      rw [List.append_nil] at hall
      refine .refused e parts s u hparts hu htest fun kind => ?_
      rw [hsame.file kind, ← hall, edits_append, edits_delEdits, delRule, Store.file_deleteConfFile, Store.file_deleteConfFile]
      cases kind <;> simp

end At

/-! ## All calls -/

section Pool

variable {κ : Type} (calls : κ → Call ι φ)

/-- `update_rules`: the calls, and the directory -/
def updatePool (s : Store φ) : Pool κ (Store φ) (Except String Unit) := ⟨fun i => (calls i).task ipText dir, s⟩

/-- nginx has refused no call of the name: one that failed lacked an address -/
def Unrefused (name : String) (p : Pool κ (Store φ) (Except String Unit)) : Prop :=
  ∀ i e, (calls i).name = name → p.tasks i = .done (.error e) → ((calls i).generated ipText dir).2 = .error e

/-- what the calls leave of all files -/
structure Shared (s₀ : Store φ) (p : Pool κ (Store φ) (Except String Unit)) : Prop where
  /-- a file that no call has is as it was -/
  untouched : ∀ kind name, (∀ i, (calls i).name ≠ name ∧ ∀ data, .conf kind name data ∉ ((calls i).generated ipText dir).1) →
    p.state.file kind name = s₀.file kind name
  /-- a file is as it was, or as one of the calls wrote it, if nginx has refused no call of its name -/
  kept : ∀ kind name, Unrefused ipText dir calls name p → p.state.available kind name = s₀.available kind name ∨
    ∃ i data, .conf kind name data ∈ (calls i).writes ipText dir ∧ p.state.available kind name = some data
  /-- and it stays enabled -/
  enabled : ∀ kind name, Unrefused ipText dir calls name p → s₀.enabled kind name = true → p.state.enabled kind name = true
  /-- a file of a secret is as it was, or as one of the calls wrote it -/
  secret : ∀ path, p.state.secrets path = s₀.secrets path ∨
    ∃ i content, .secret path content ∈ (calls i).writes ipText dir ∧ p.state.secrets path = some content

/-- a state on the way -/
def OnTheWay [DecidableEq κ] (s₀ : Store φ) (schedule : List κ) (t : Store φ) : Prop :=
  ∃ pre, pre <+: schedule ∧ ((updatePool ipText dir calls s₀).run pre).state = t

/-- the files of a call that is apart are what its operations make of them -/
def Own (s₀ : Store φ) (i : κ) (pre : List (Edit φ)) (s : Store φ) : Prop :=
  Apart ipText dir calls i → SameAt (calls i).name s (s₀.edits pre)

variable [DecidableEq κ] {ipText dir calls} {s₀ : Store φ} {schedule : List κ}

omit [DecidableEq κ] in
/-- the calls keep an assertion about each, if its own operations do and those of the others do not disturb it -/
theorem stable_at {Φ : κ → List (Edit φ) → Store φ → Prop} {tested : Store φ → Prop}
    (hown : ∀ i s pre, ∀ e ∈ (calls i).edits ipText dir, Φ i pre s → Φ i (pre ++ [e]) (s.edit e))
    (hother : ∀ i j, i ≠ j → ∀ s pre, ∀ e ∈ (calls i).edits ipText dir, Φ j pre s → Φ j pre (s.edit e)) :
    Stable tested fun i => At ipText dir (calls i) (Φ i) tested := by
  refine ⟨fun i act next s hs h => h.own (hown i s) hs, fun i j act next t s hij _ hi hj => ?_⟩
  rcases hi.act_mem with rfl | ⟨e, he, rfl⟩
  · exact hj
  · exact hj.imp fun pre => hother i j hij s pre e he

omit [DecidableEq κ] in
theorem stable_own (calls : κ → Call ι φ) (s₀ : Store φ) (tested : Store φ → Prop) :
    Stable tested fun i => At ipText dir (calls i) (Own ipText dir calls s₀ i) tested := by
  refine stable_at (fun i s pre e _ hpre ha => ?_) fun i j hij s pre e he hpre ha => (hpre ha).edit_of_ne fun habout => ?_
  · rw [edits_append]
    exact (hpre ha).edit e
  · rcases cases_of_mem_edits he with h | ⟨kind, name, data, hmem, rfl | rfl⟩ | ⟨path, content, -, rfl⟩
    · exact ha.1 i hij (Option.some.inj (h.symm.trans habout))
    · obtain rfl := Option.some.inj habout
      exact ha.2 i kind data hmem
    · obtain rfl := Option.some.inj habout
      exact ha.2 i kind data hmem
    · cases habout

omit [DecidableEq κ] in
/-- at first every call has all of its operations left -/
theorem at_start {Φ : List (Edit φ) → Store φ → Prop} (tested : Store φ → Prop) (hΦ : Φ [] s₀) (i : κ) :
    At ipText dir (calls i) Φ tested ((updatePool ipText dir calls s₀).tasks i) (updatePool ipText dir calls s₀).state :=
  .writing [] _ rfl rfl hΦ

omit [DecidableEq κ] in
theorem own_start (tested : Store φ → Prop) (i : κ) : At ipText dir (calls i) (Own ipText dir calls s₀ i) tested
    ((updatePool ipText dir calls s₀).tasks i) (updatePool ipText dir calls s₀).state :=
  at_start tested (fun _ _ => ⟨rfl, rfl⟩) i

variable (calls schedule) in
/-- what every operation of the calls keeps holds after every schedule -/
theorem state_of_run {J : Store φ → Prop} (hJ : ∀ i, ∀ e ∈ (calls i).edits ipText dir, ∀ s, J s → J (s.edit e)) (h₀ : J s₀) :
    J ((updatePool ipText dir calls s₀).run schedule).state := by
  have hstable : Stable (fun _ => True) fun i => At ipText dir (calls i) (Own ipText dir calls s₀ i) fun _ => True :=
    stable_own calls s₀ _
  refine hstable.run_state (fun i act next s _ hi hs => ?_) (fun _ _ => trivial) (own_start _) h₀
  rcases hi.act_mem with rfl | ⟨e, he, rfl⟩
  · exact hs
  · exact hJ i e he s hs

/-- what every write, and every deletion of another name, keeps holds after every schedule in which nginx refuses no call of
the name -/
theorem state_of_unrefused {J : Store φ → Prop} {name : String}
    (hwrite : ∀ i, ∀ e ∈ ((calls i).writes ipText dir).flatMap Write.edits, ∀ s, J s → J (s.edit e))
    (hdel : ∀ other, other ≠ name → ∀ e ∈ delEdits other, ∀ s, J s → J (s.edit e)) (h₀ : J s₀)
    (hdone : ((updatePool ipText dir calls s₀).run schedule).Finished)
    (h : Unrefused ipText dir calls name ((updatePool ipText dir calls s₀).run schedule)) :
    J ((updatePool ipText dir calls s₀).run schedule).state := by
  have hstable : Stable (fun _ => True) fun i => At ipText dir (calls i) (Own ipText dir calls s₀ i) fun _ => True :=
    stable_own calls s₀ _
  have hrun : J ((updatePool ipText dir calls s₀).run schedule).state ∨
      ∃ i, (calls i).name = name ∧ Refused ipText dir (calls i) (((updatePool ipText dir calls s₀).run schedule).tasks i) := by
    refine hstable.run_pool (K := fun p => J p.state ∨ ∃ i, (calls i).name = name ∧ Refused ipText dir (calls i) (p.tasks i))
      (fun p i _ hp hK => ?_) (fun _ _ => trivial) (own_start _) (.inl h₀)
    cases hi : p.tasks i with
    | done result => rwa [Pool.step_of_done hi]
    | step act next =>
      have hat := hi ▸ hp i
      rw [Pool.step_of_step hi]
      rcases hK with hs | ⟨j, hj, hrefused⟩
      · rcases hat.act_cases with rfl | ⟨pre, e, rest, hall, -, rfl⟩ | ⟨hrefused, e, he, rfl⟩
        · exact .inl hs
        · exact .inl (hwrite i e (by simp [hall]) _ hs)
        · by_cases hname : (calls i).name = name
          · exact .inr ⟨i, hname, by simpa using hrefused.goes_on p.state⟩
          · exact .inl (hdel _ hname e he _ hs)
      · refine .inr ⟨j, hj, ?_⟩
        by_cases hij : j = i
        · subst hij
          rw [hi] at hrefused
          simpa using hrefused.goes_on p.state
        · simpa [Function.update_of_ne hij] using hrefused
  refine hrun.resolve_right ?_
  rintro ⟨i, hname, parts, e, rest, hparts, ht⟩
  obtain ⟨result, hresult⟩ := hdone i
  cases rest with
  | cons e' rest => cases hresult.symm.trans ht
  | nil => cases (h i e hname ht).symm.trans hparts

omit [DecidableEq κ] in
/-- an operation is about a file that no call has -/
theorem not_of_untouched {kind : NginxRuleKind} {name : String} {i : κ} {e : Edit φ} (he : e ∈ (calls i).edits ipText dir)
    (hname : (calls i).name ≠ name ∧ ∀ data, .conf kind name data ∉ ((calls i).generated ipText dir).1) :
    (∀ data, e ≠ .file kind name data) ∧ ∀ enabled, e ≠ .link kind name enabled := by
  rcases cases_of_mem_edits he with h | ⟨kind', name', data', hmem, rfl | rfl⟩ | ⟨path, content, -, rfl⟩
  · constructor <;> rintro x rfl <;> exact hname.1 (Option.some.inj h).symm
  · constructor
    · intro data h
      cases h
      exact hname.2 data' hmem
    · intro enabled h
      cases h
  · constructor
    · intro data h
      cases h
    · intro enabled h
      cases h
      exact hname.2 data' hmem
  · constructor <;> intro x h <;> cases h

omit [DecidableEq κ] in
/-- the operations of a write -/
theorem mem_of_mem_edits {w : List (Write φ)} {e : Edit φ} (h : e ∈ w.flatMap Write.edits) :
    (∃ kind name data, .conf kind name data ∈ w ∧ (e = .file kind name (some data) ∨ e = .link kind name true)) ∨
      ∃ path content, .secret path content ∈ w ∧ e = .secret path content := by
  obtain ⟨write, hwrite, he⟩ := List.mem_flatMap.1 h
  cases write with
  | conf kind name data => exact .inl ⟨kind, name, data, hwrite, by simpa [Write.edits] using he⟩
  | secret path content => exact .inr ⟨path, content, hwrite, by simpa [Write.edits] using he⟩

theorem about_of_mem_delEdits {name : String} {e : Edit φ} (h : e ∈ delEdits name) : e.about = some name := by
  simp only [delEdits, List.mem_cons, List.not_mem_nil, or_false] at h
  rcases h with rfl | rfl | rfl | rfl <;> rfl

theorem shared_of_run (hdone : ((updatePool ipText dir calls s₀).run schedule).Finished) :
    Shared ipText dir calls s₀ ((updatePool ipText dir calls s₀).run schedule) where
  untouched kind name hname := by
    have h : ((updatePool ipText dir calls s₀).run schedule).state.available kind name = s₀.available kind name ∧
        ((updatePool ipText dir calls s₀).run schedule).state.enabled kind name = s₀.enabled kind name := by
      refine state_of_run calls schedule (J := fun s => s.available kind name = s₀.available kind name ∧ s.enabled kind name =
        s₀.enabled kind name) (fun i e he s hs => ?_) ⟨rfl, rfl⟩
      obtain ⟨hfile, hlink⟩ := not_of_untouched he (hname i)
      rw [available_edit_of_ne hfile, enabled_edit_of_ne hlink]
      exact hs
    rw [Store.file, Store.file, h.1, h.2]
  kept kind name hname := by
    refine state_of_unrefused (J := fun s => s.available kind name = s₀.available kind name ∨
      ∃ i data, .conf kind name data ∈ (calls i).writes ipText dir ∧ s.available kind name = some data)
      (fun i e he s hs => ?_) (fun other hother e he s hs => ?_) (.inl rfl) hdone hname
    · by_cases hfile : ∀ data, e ≠ .file kind name data
      · rwa [available_edit_of_ne hfile]
      · push Not at hfile
        obtain ⟨data, rfl⟩ := hfile
        rcases mem_of_mem_edits he with ⟨kind', name', data', hmem, h | h⟩ | ⟨path, content, -, h⟩
        · cases h
          exact .inr ⟨i, data', hmem, by simp [Store.edit]⟩
        · cases h
        · cases h
    · rwa [available_edit_of_ne]
      rintro data rfl
      exact hother (Option.some.inj (about_of_mem_delEdits he)).symm
  enabled kind name hname hon := by
    refine state_of_unrefused (J := fun s => s.enabled kind name = true) (fun i e he s hs => ?_)
      (fun other hother e he s hs => ?_) hon hdone hname
    · by_cases hlink : ∀ enabled, e ≠ .link kind name enabled
      · rwa [enabled_edit_of_ne hlink]
      · push Not at hlink
        obtain ⟨enabled, rfl⟩ := hlink
        rcases mem_of_mem_edits he with ⟨kind', name', data', hmem, h | h⟩ | ⟨path, content, -, h⟩
        · cases h
        · cases h
          simp [Store.edit]
        · cases h
    · rwa [enabled_edit_of_ne]
      rintro enabled rfl
      exact hother (Option.some.inj (about_of_mem_delEdits he)).symm
  secret path := by
    refine state_of_run calls schedule (J := fun s => s.secrets path = s₀.secrets path ∨
      ∃ i content, .secret path content ∈ (calls i).writes ipText dir ∧ s.secrets path = some content)
      (fun i e he s hs => ?_) (.inl rfl)
    by_cases hsecret : ∃ content, e = .secret path content
    · obtain ⟨content, rfl⟩ := hsecret
      rcases List.mem_append.1 he with he | he
      · rcases mem_of_mem_edits he with ⟨kind', name', data', hmem, h | h⟩ | ⟨path', content', hmem, h⟩
        · cases h
        · cases h
        · cases h
          exact .inr ⟨i, content, hmem, by simp [Store.edit, Store.writeSecret]⟩
      · cases about_of_mem_delEdits he
    · have hsame : (s.edit e).secrets path = s.secrets path := by
        cases e with
        | file kind name data => rfl
        | link kind name enabled => rfl
        | secret path' content =>
          have hne : path ≠ path' := fun heq => hsecret ⟨content, heq ▸ rfl⟩
          simp [Store.edit, Store.writeSecret, hne]
      rwa [hsame]

end Pool

/-- **Whatever the order of the steps**, each call that is apart from the others settles its rule: the rule is as it was if an
address is not to be had, it is updated, or it is gone, and then nginx refused what was enabled on the way. A file whose name
is of no call that nginx refused stays, or is as one of the calls wrote it. -/
theorem update_rules_settles {κ : Type} [DecidableEq κ] (calls : κ → Call ι φ) (s₀ : Store φ) (schedule : List κ)
    (hdone : ((updatePool ipText dir calls s₀).run schedule).Finished) :
    (∀ i, Apart ipText dir calls i → ∃ result, ((updatePool ipText dir calls s₀).run schedule).tasks i = .done result ∧
      Settles ipText dir (calls i) s₀ (OnTheWay ipText dir calls s₀ schedule) result
        ((updatePool ipText dir calls s₀).run schedule).state) ∧
      Shared ipText dir calls s₀ ((updatePool ipText dir calls s₀).run schedule) := by
  refine ⟨?_, shared_of_run hdone⟩
  intro i hi
  obtain ⟨result, hresult⟩ := hdone i
  have hat : At ipText dir (calls i) (Own ipText dir calls s₀ i) (OnTheWay ipText dir calls s₀ schedule)
      (((updatePool ipText dir calls s₀).run schedule).tasks i) ((updatePool ipText dir calls s₀).run schedule).state :=
    (stable_own calls s₀ (OnTheWay ipText dir calls s₀ schedule)).run (fun pre hpre => ⟨pre, hpre, rfl⟩) (own_start _) i
  rw [hresult] at hat
  have hsame : At ipText dir (calls i) (fun pre s => SameAt (calls i).name s (s₀.edits pre))
      (OnTheWay ipText dir calls s₀ schedule) (.done result) ((updatePool ipText dir calls s₀).run schedule).state :=
    hat.imp fun pre hpre => hpre hi
  exact ⟨result, hresult, hsame.settles (hi.2 i)⟩

/-! ## A rule that is refused -/

/-- a stream rule that listens on a port -/
def portRule (port : UInt16) : ResourceProxyRule Unit Unit :=
  ⟨[.stream ⟨.all, .tcp, port, none, .upstream ⟨"db.global.c", 5432, none, none, none⟩⟩]⟩

/-- nginx refuses a server that listens on the port 0 -/
def portTest (s : Store Unit) : Except String Unit :=
  match s.file .stream "db" with
  | some (.stream [⟨"0", _, _, _⟩]) => .error "[emerg] invalid port in 0 of the listen directive"
  | _ => .ok ()

/-- the rule `db` moves to the port 0, and the rule `cache` is added -/
def portCalls : Bool → Call Unit Unit
  | true => ⟨dbClient (some "172.18.0.5"), portTest, "db", portRule 0⟩
  | false => ⟨dbClient (some "172.18.0.5"), portTest, "cache", portRule 6379⟩

/-- the rule `db` is enabled on its port -/
def portStore : Store Unit :=
  emptyStore.writeConfFile "db" (.stream [⟨"5432", "db", "db.global-5432-cargo", none⟩]) .stream

/-- `db` is written, `cache` is written and tested, and then `db` is tested -/
def portSchedule : List Bool := List.replicate 4 true ++ List.replicate 9 false ++ List.replicate 5 true

theorem finished_ports :
    ((updatePool (fun _ => "") "/var" portCalls portStore).run portSchedule).Finished := by
  intro i
  cases i with
  | true => exact ⟨_, rfl⟩
  | false => exact ⟨_, rfl⟩

/-- the rule `db` is refused, and so is `cache`, which is tested while `db` is there -/
theorem update_rules_settles_ports :
    (∀ i, Apart (fun _ => "") "/var" portCalls i → ∃ result,
      ((updatePool (fun _ => "") "/var" portCalls portStore).run portSchedule).tasks i = .done result ∧
      Settles (fun _ => "") "/var" (portCalls i) portStore (OnTheWay (fun _ => "") "/var" portCalls portStore portSchedule) result
        ((updatePool (fun _ => "") "/var" portCalls portStore).run portSchedule).state) ∧
      Shared (fun _ => "") "/var" portCalls portStore ((updatePool (fun _ => "") "/var" portCalls portStore).run portSchedule) :=
  update_rules_settles (fun _ => "") "/var" portCalls portStore portSchedule finished_ports

section Harmless

variable {κ : Type} (calls : κ → Call ι φ) (s₀ : Store φ) (p : Pool κ (Store φ) (Except String Unit))

/-- a call that fails leaves the enabled files of its rule as they were -/
def KeepsOwn : Prop :=
  ∀ i e, p.tasks i = .done (.error e) → ∀ kind, p.state.file kind (calls i).name = s₀.file kind (calls i).name

/-- if all calls fail, all other files are as they were -/
def KeepsShared : Prop :=
  (∀ i, ∃ e, p.tasks i = .done (.error e)) → p.state.secrets = s₀.secrets ∧
    ∀ kind name, (∀ i, (calls i).name ≠ name) → p.state.file kind name = s₀.file kind name

/-- a rule that nginx accepts alone is not removed -/
def KeepsValid : Prop :=
  ∀ i kind, (((calls i).task ipText dir).alone s₀).1 = .ok () →
    ((((calls i).task ipText dir).alone s₀).2.file kind (calls i).name).isSome → (p.state.file kind (calls i).name).isSome

end Harmless

/-- the rule `db`, which was accepted, is gone after a call that failed, the upstream that both calls wrote stays, and the rule
`cache`, which is accepted alone, is gone because of `db` -/
theorem refused_update_removes :
    ¬ ∀ (calls : Bool → Call Unit Unit) (s₀ : Store Unit) (schedule : List Bool), (∀ i, (calls i).test s₀ = .ok ()) →
      ((updatePool (fun _ => "") "/var" calls s₀).run schedule).Finished →
        KeepsOwn calls s₀ ((updatePool (fun _ => "") "/var" calls s₀).run schedule) ∨
        KeepsShared calls s₀ ((updatePool (fun _ => "") "/var" calls s₀).run schedule) ∨
        KeepsValid (fun _ => "") "/var" calls s₀ ((updatePool (fun _ => "") "/var" calls s₀).run schedule) := by
  intro h
  have haccepted : ∀ i, (portCalls i).test portStore = .ok () := fun i => by cases i <;> rfl
  rcases h portCalls portStore portSchedule haccepted finished_ports with hown | hshared | hvalid
  · have hdb := hown true "[emerg] invalid port in 0 of the listen directive" rfl .stream
    cases hdb
  · have hfailed : ∀ i, ∃ e,
        ((updatePool (fun _ => "") "/var" portCalls portStore).run portSchedule).tasks i = .done (.error e) := by
      intro i
      cases i <;> exact ⟨_, rfl⟩
    have hupstream := (hshared hfailed).2 .stream "db.global-5432-cargo" fun i => by cases i <;> decide
    cases hupstream
  · have hcache := hvalid false .stream rfl rfl
    cases hcache

end Nanocl.Proxy.Nginx
