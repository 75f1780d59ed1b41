/-
The rounds of `state_apply` (`commands/state.rs`): what a round over one declaration makes of the daemon when it returns,
and which requests it makes.

A round inspects the object and creates it if that fails; an object that shows something else than the declaration is
brought up to date, and one that shows the declaration is left as it is, started or not. The updates carry less than the
comparison looks at: a secret keeps its kind, a VM its disk and whatever the declaration leaves unset, and a resource the
kind it was stored with.

- `applyAll_ok`: a loop that returns is a pass over the labelled declarations of its section (`Reconciler`).
- `applyAll_quiet`: it asks for nothing exactly if each round does.
- `applySecret_ok`, `applyCargo_ok`, `applyVm_ok`, `applyResource_ok`: what a round makes of the object under its key.
- `applySecret_quiet` and the others: a round asks for nothing exactly if the inspection shows the declaration.
- `onlyJobs_applyJob`: the jobs' rounds concern jobs alone.
-/
import Nanocl.Cli.Apply

namespace Nanocl.Cli

open Nanocl.Lib Nanocl.Objects

variable {δ : Type} {E : ApplyEnv δ}

/-! ## Requests -/

section Answered

variable {V : Type} {T : Shelf δ V} {slot : ℕ} {name key : String} {s s' : Session δ}

theorem Shelf.get_store (T : Shelf δ V) (i : Inventory δ) (key : String) (v : V) :
    T.get (T.store i key v) = Function.update (T.get i) key (some v) := T.get_set ..

theorem Shelf.store_store (T : Shelf δ V) (i : Inventory δ) (key : String) (v v' : V) :
    T.store (T.store i key v) key v' = T.store i key v' := by
  unfold Shelf.store
  rw [T.get_set, T.set_set, Function.update_idem]

theorem Shelf.store_self {T : Shelf δ V} {i : Inventory δ} {key : String} {v : V} (h : T.get i key = some v) :
    T.store i key v = i := by
  unfold Shelf.store
  rw [← h, Function.update_eq_self, T.set_get]

theorem send_sent {α : Type} (r : Sent) (answer : Inventory δ → Except HttpError (α × Inventory δ)) (s : Session δ) :
    (send E slot r answer s).2.sent = s.sent ++ [r] := by
  unfold send
  cases E.fault r.kind slot r.verb with
  | some e => rfl
  | none =>
    cases answer s.inventory with
    | error e => rfl
    | ok p => rfl

theorem send_ok {α : Type} {r : Sent} {answer : Inventory δ → Except HttpError (α × Inventory δ)} {a : α}
    (h : send E slot r answer s = (.ok a, s')) : answer s.inventory = .ok (a, s'.inventory) := by
  unfold send at h
  cases hf : E.fault r.kind slot r.verb with
  | some e => simp [hf] at h
  | none =>
    cases ha : answer s.inventory with
    | error e => simp [hf, ha] at h
    | ok p =>
      simp only [hf, ha, Prod.mk.injEq, Except.ok.injEq] at h
      obtain ⟨rfl, rfl⟩ := h
      rfl

theorem inspectObj_ok {v : V} (h : inspectObj E T slot name key s = (.ok v, s')) :
    T.get s.inventory key = some v ∧ s'.inventory = s.inventory := by
  have ha := send_ok h
  cases hg : T.get s.inventory key with
  | none => simp [hg] at ha
  | some v' =>
    simp only [hg, Except.ok.injEq, Prod.mk.injEq] at ha
    exact ⟨congrArg some ha.1, ha.2.symm⟩

/-- an inspection changes nothing on the daemon -/
theorem inspectObj_inventory : (inspectObj E T slot name key s).2.inventory = s.inventory := by
  unfold inspectObj send
  cases E.fault T.kind slot .inspect with
  | some e => rfl
  | none => cases hg : T.get s.inventory key <;> simp [hg]

/-- an inspection that the daemon lets through shows what is stored -/
theorem inspectObj_isOk (hf : E.fault T.kind slot .inspect = none) {v : V} :
    (inspectObj E T slot name key s).1 = .ok v ↔ T.get s.inventory key = some v := by
  unfold inspectObj send
  simp only [hf]
  cases hg : T.get s.inventory key <;> simp

theorem createObj_ok {new : Except HttpError V} (h : createObj E T slot name key new s = (.ok (), s')) :
    T.get s.inventory key = none ∧ ∃ v, new = .ok v ∧ s'.inventory = T.store s.inventory key v := by
  have ha := send_ok h
  cases hg : T.get s.inventory key with
  | some v => simp [hg] at ha
  | none =>
    cases hn : new with
    | error e => simp [hg, hn, bind, Except.bind] at ha
    | ok v =>
      simp only [hg, hn, bind, Except.bind, pure, Except.pure, Except.ok.injEq, Prod.mk.injEq, true_and] at ha
      exact ⟨rfl, v, rfl, ha.symm⟩

theorem rewriteObj_ok {verb : Verb} {f : V → Except HttpError V}
    (h : rewriteObj E T slot name key verb f s = (.ok (), s')) :
    ∃ v v', T.get s.inventory key = some v ∧ f v = .ok v' ∧ s'.inventory = T.store s.inventory key v' := by
  have ha := send_ok h
  cases hg : T.get s.inventory key with
  | none => simp [hg] at ha
  | some v =>
    cases hv : f v with
    | error e => simp [hg, hv, bind, Except.bind] at ha
    | ok v' =>
      simp only [hg, hv, bind, Except.bind, pure, Except.pure, Except.ok.injEq, Prod.mk.injEq, true_and] at ha
      exact ⟨v, v', rfl, hv, ha.symm⟩

theorem watch_ok {op : Operation} (h : watch E T slot name op s = (.ok (), s')) : s'.inventory = s.inventory :=
  (Prod.mk.inj (Except.ok.inj (send_ok h))).2.symm

theorem awaitOp_ok {op : Operation} (h : awaitOp E op s = (.ok (), s')) : s' = s := by
  unfold awaitOp at h
  rcases hr : result op (E.watched op) with _ | e | u
  · rw [hr] at h
    cases h
  · rw [hr] at h
    cases h
  · rw [hr] at h
    exact (Prod.mk.inj h).2.symm

/-- a creation with its start, once the waiter has returned `Ok` -/
theorem create_start_ok {op : Operation} {new v : V} {f : V → V}
    (h : (do
      createObj E T slot name key (.ok new)
      watch E T slot name op
      rewriteObj E T slot name key .start fun v => .ok (f v)
      awaitOp E op : ApplyIo δ Unit) s = (.ok (), s')) (hv : f new = v) :
    T.get s.inventory key = none ∧ s'.inventory = T.store s.inventory key v := by
  obtain ⟨_, s₁, hcreate, h⟩ := Prog.bind_eq_ok h
  obtain ⟨_, s₂, hwatch, h⟩ := Prog.bind_eq_ok h
  obtain ⟨_, s₃, hstart, hawait⟩ := Prog.bind_eq_ok h
  obtain ⟨hnone, new', hnew, hi₁⟩ := createObj_ok hcreate
  obtain rfl := Except.ok.inj hnew
  obtain ⟨v₁, v₂, hget, hf, hi₃⟩ := rewriteObj_ok hstart
  rw [watch_ok hwatch, hi₁] at hget hi₃
  rw [T.get_store, Function.update_self] at hget
  obtain rfl := Option.some.inj hget
  obtain rfl := Except.ok.inj hf
  refine ⟨hnone, ?_⟩
  rw [awaitOp_ok hawait, hi₃, T.store_store, hv]

/-- a change with its task, once the waiter has returned `Ok` -/
theorem watch_rewrite_ok {op : Operation} {verb : Verb} {f : V → V}
    (h : (do
      watch E T slot name op
      rewriteObj E T slot name key verb fun v => .ok (f v)
      awaitOp E op : ApplyIo δ Unit) s = (.ok (), s')) :
    ∃ v, T.get s.inventory key = some v ∧ s'.inventory = T.store s.inventory key (f v) := by
  obtain ⟨_, s₁, hwatch, h⟩ := Prog.bind_eq_ok h
  obtain ⟨_, s₂, hrewrite, hawait⟩ := Prog.bind_eq_ok h
  obtain ⟨v, v', hget, hf, hi⟩ := rewriteObj_ok hrewrite
  rw [watch_ok hwatch] at hget hi
  obtain rfl := Except.ok.inj hf
  refine ⟨v, hget, ?_⟩
  rw [awaitOp_ok hawait, hi]

end Answered

/-! ## Which requests are made -/

section Requests

variable {V : Type} {T : Shelf δ V} {slot : ℕ} {name key : String} {s s₁ s' : Session δ}

/-- the second session has made the requests of the first one, and maybe more -/
def Extends (s s' : Session δ) : Prop := s.sent <+: s'.sent

instance : IsPreorder (Session δ) Extends where
  refl s := List.prefix_refl s.sent
  trans _ _ _ h h' := h.trans h'

/-- between the two sessions nothing but jobs was asked to change -/
def Silent (s s' : Session δ) : Prop := ∃ l, s'.sent = s.sent ++ l ∧ ∀ q ∈ l, q.kind ≠ .job → q.verb = .inspect

theorem Silent.refl (s : Session δ) : Silent s s := ⟨[], (List.append_nil _).symm, fun _ hq => absurd hq List.not_mem_nil⟩

theorem silent_iff {l : List Sent} (h : s'.sent = s.sent ++ l) :
    Silent s s' ↔ ∀ q ∈ l, q.kind ≠ .job → q.verb = .inspect := by
  constructor
  · intro hsilent
    obtain ⟨l', hl', hall⟩ := hsilent
    obtain rfl := List.append_cancel_left (h.symm.trans hl')
    exact hall
  · intro hall
    exact ⟨l, h, hall⟩

theorem silent_trans_iff (h₁ : Extends s s₁) (h₂ : Extends s₁ s') : Silent s s' ↔ Silent s s₁ ∧ Silent s₁ s' := by
  obtain ⟨l₁, hl₁⟩ := h₁
  obtain ⟨l₂, hl₂⟩ := h₂
  have hl : s'.sent = s.sent ++ (l₁ ++ l₂) := by
    rw [← hl₂, ← hl₁, List.append_assoc]
  rw [silent_iff hl, silent_iff hl₁.symm, silent_iff hl₂.symm, List.forall_mem_append]

theorem extends_send {α : Type} (r : Sent) (answer : Inventory δ → Except HttpError (α × Inventory δ)) :
    Prog.Keeps Extends (send E slot r answer) := by
  intro s
  rw [Extends, send_sent]
  exact List.prefix_append ..

theorem silent_send {α : Type} {r : Sent} {answer : Inventory δ → Except HttpError (α × Inventory δ)} :
    Silent s (send E slot r answer s).2 ↔ (r.kind ≠ .job → r.verb = .inspect) := by
  rw [silent_iff (send_sent r answer s)]
  exact List.forall_mem_singleton

theorem extends_awaitOp (op : Operation) : Prog.Keeps Extends (awaitOp E op) := by
  unfold awaitOp
  rcases result op (E.watched op) with _ | e | u
  · exact Prog.keeps_fail _
  · exact Prog.keeps_fail _
  · exact Prog.keeps_pure _

theorem extends_watch_rewrite (op : Operation) (verb : Verb) (f : V → Except HttpError V) :
    Prog.Keeps Extends (do
      watch E T slot name op
      rewriteObj E T slot name key verb f
      awaitOp E op : ApplyIo δ Unit) :=
  Prog.keeps_bind (extends_send _ _) fun _ => Prog.keeps_bind (extends_send _ _) fun _ => extends_awaitOp op

/-- a program that always asks for a change -/
def Loud {α : Type} (m : ApplyIo δ α) : Prop := ∀ s, Extends s (m s).2 ∧ ¬ Silent s (m s).2

theorem loud_send {α : Type} {kind : ObjKind} {verb : Verb} {answer : Inventory δ → Except HttpError (α × Inventory δ)}
    (hkind : kind ≠ .job) (hverb : verb ≠ .inspect) : Loud (send E slot ⟨kind, name, verb⟩ answer) := fun s =>
  ⟨extends_send _ _ s, fun h => hverb (silent_send.1 h hkind)⟩

/-- a program whose first request is neither about a job nor an inspection -/
theorem loud_of_first {α β : Type} {kind : ObjKind} {verb : Verb}
    {answer : Inventory δ → Except HttpError (α × Inventory δ)} {rest : α → ApplyIo δ β} (hkind : kind ≠ .job)
    (hverb : verb ≠ .inspect) (hrest : ∀ a, Prog.Keeps Extends (rest a)) :
    Loud (send E slot ⟨kind, name, verb⟩ answer >>= rest) := by
  intro s
  have hfirst : Extends s (send E slot ⟨kind, name, verb⟩ answer s).2 := extends_send _ _ s
  have hloud : ¬ Silent s (send E slot ⟨kind, name, verb⟩ answer s).2 := fun h => hverb (silent_send.1 h hkind)
  refine ⟨Prog.keeps_bind (extends_send _ _) hrest s, fun h => ?_⟩
  rcases hr : send E slot ⟨kind, name, verb⟩ answer s with ⟨e | a, s₁⟩
  · rw [Prog.bind_of_error hr] at h
    rw [hr] at hloud
    exact hloud h
  · rw [Prog.bind_of_ok hr] at h
    rw [hr] at hloud hfirst
    exact hloud ((silent_trans_iff hfirst (hrest a s₁)).1 h).1

/-- between the two sessions nothing but jobs was asked to change exactly if the condition holds, and then the daemon
stores what it stored -/
structure QuietIff (Q : Prop) (s s' : Session δ) : Prop where
  more : Extends s s'
  silent : Silent s s' ↔ Q
  kept : Q → s'.inventory = s.inventory

theorem QuietIff.congr {Q Q' : Prop} (h : QuietIff Q s s') (hQ : Q ↔ Q') : QuietIff Q' s s' :=
  ⟨h.more, h.silent.trans hQ, fun hQ' => h.kept (hQ.2 hQ')⟩

theorem QuietIff.trans {Q Q' : Prop} (h : QuietIff Q s s₁) (h' : Q → QuietIff Q' s₁ s') (hmore : Extends s₁ s') :
    QuietIff (Q ∧ Q') s s' where
  more := h.more.trans hmore
  silent := by
    rw [silent_trans_iff h.more hmore, h.silent]
    exact and_congr_right fun hQ => (h' hQ).silent
  kept hall := ((h' hall.1).kept hall.2).trans (h.kept hall.1)

end Requests

/-! ## One round -/

section Round

variable {V : Type} {T : Shelf δ V} {slot : ℕ} {name key : String} {s s' : Session δ} {create update : ApplyIo δ Unit}
  {unchanged : V → Bool}

/-- what a round makes of the object under its key -/
def roundStep (new : V) (unchanged : V → Bool) (f : V → V) : Option V → Option V
  | none => some new
  | some v => if unchanged v then some v else some (f v)

/-- **What a round that returns does**: it creates the object if there is none, and brings it up to date otherwise. -/
theorem applyObj_ok (new : V) (f : V → V)
    (hcreate : ∀ s s', create s = (.ok (), s') →
      T.get s.inventory key = none ∧ s'.inventory = T.store s.inventory key new)
    (hupdate : ∀ s s', update s = (.ok (), s') →
      ∃ v, T.get s.inventory key = some v ∧ s'.inventory = T.store s.inventory key (f v))
    (h : applyObj E T slot name key create unchanged update s = (.ok (), s')) :
    s'.inventory = T.set s.inventory
      (Function.update (T.get s.inventory) key (roundStep new unchanged f (T.get s.inventory key))) := by
  obtain ⟨r, s₁, hattempt, h⟩ := Prog.bind_eq_ok h
  obtain ⟨hr, hs⟩ := Prod.mk.inj hattempt
  have hi : s₁.inventory = s.inventory := by
    rw [← hs]
    exact inspectObj_inventory
  obtain rfl := Except.ok.inj hr
  rcases hinspect : (inspectObj E T slot name key s).1 with e | v
  · rw [hinspect] at h
    obtain ⟨hnone, hi'⟩ := hcreate _ _ h
    rw [hi] at hnone hi'
    rw [hi', hnone]
    rfl
  · rw [hinspect] at h
    obtain ⟨hget, -⟩ := inspectObj_ok (Prog.eq_of_ok hinspect)
    rw [hget]
    cases hun : unchanged v with
    | true =>
      simp only [hun, if_true] at h
      rw [← (Prod.mk.inj h).2, hi, roundStep, if_pos hun]
      exact (Shelf.store_self hget).symm
    | false =>
      simp only [hun, Bool.false_eq_true, if_false] at h
      obtain ⟨v', hget', hi'⟩ := hupdate _ _ h
      rw [hi] at hget' hi'
      obtain rfl := Option.some.inj (hget.symm.trans hget')
      rw [hi', roundStep, if_neg (by simp [hun])]
      rfl

/-- **When a round asks for nothing**: where the inspection goes through, exactly if it shows what is declared. -/
theorem applyObj_quiet {r : Except Halt Unit} (hf : E.fault T.kind slot .inspect = none) (hcreate : Loud create)
    (hupdate : Loud update) (h : applyObj E T slot name key create unchanged update s = (r, s')) :
    QuietIff (∃ v, T.get s.inventory key = some v ∧ unchanged v = true) s s' := by
  obtain rfl : (applyObj E T slot name key create unchanged update s).2 = s' := congrArg Prod.snd h
  set s₁ := (inspectObj E T slot name key s).2 with hs₁
  have hinspect : Extends s s₁ ∧ Silent s s₁ := ⟨extends_send _ _ s, silent_send.2 fun _ => rfl⟩
  have hrun : applyObj E T slot name key create unchanged update s = _ := Prog.bind_of_ok (Prog.run_attempt _ s)
  have hloud : ∀ {m : ApplyIo δ Unit} {Q : Prop}, Loud m → ¬ Q → QuietIff Q s (m s₁).2 := fun hm hQ =>
    ⟨hinspect.1.trans (hm s₁).1, iff_of_false (fun h => (hm s₁).2 ((silent_trans_iff hinspect.1 (hm s₁).1).1 h).2) hQ,
      fun h => absurd h hQ⟩
  rw [hrun]
  cases hget : T.get s.inventory key with
  | none =>
    have herr : ∃ e, (inspectObj E T slot name key s).1 = .error e := by
      cases hr : (inspectObj E T slot name key s).1 with
      | error e => exact ⟨e, rfl⟩
      | ok v =>
        rw [inspectObj_isOk hf, hget] at hr
        cases hr
    obtain ⟨e, he⟩ := herr
    rw [he]
    exact hloud hcreate (by simp)
  | some v =>
    rw [(inspectObj_isOk hf).2 hget]
    cases hun : unchanged v with
    | true =>
      simp only [hun, if_true]
      exact ⟨hinspect.1, iff_of_true hinspect.2 ⟨v, rfl, hun⟩, fun _ => inspectObj_inventory⟩
    | false =>
      simp only [hun, Bool.false_eq_true, if_false]
      refine hloud hupdate fun hshown => ?_
      obtain ⟨v', hv', hun'⟩ := hshown
      obtain rfl := Option.some.inj hv'
      rw [hun] at hun'
      cases hun'

end Round

/-! ## Sections -/

section Sections

variable {V α : Type} {T : Shelf δ V} {R : Reconciler String α (Option V)} {f : ℕ → α → ApplyIo δ Unit} {s s' : Session δ}
  {l : Option (List α)} {label : α → Option α}

/-- **A loop over a section that returns** has labelled each declaration, and is a pass over them. -/
theorem applyAll_ok (hf : ∀ slot a s s', f slot a s = (.ok (), s') →
      ∃ d, label a = some d ∧ s'.inventory = T.set s.inventory (R.one (T.get s.inventory) d))
    (h : applyAll l f s = (.ok (), s')) :
    ∃ ds, (l.getD []).mapM label = some ds ∧ s'.inventory = T.set s.inventory (R.reconcile (T.get s.inventory) ds) := by
  unfold applyAll at h
  rw [← List.zipIdx_map_fst 0 (l.getD [])]
  generalize (l.getD []).zipIdx = ps at h
  induction ps generalizing s with
  | nil =>
    obtain rfl := (Prod.mk.inj h).2
    exact ⟨[], rfl, (T.set_get s.inventory).symm⟩
  | cons p ps ih =>
    obtain ⟨_, s₁, hp, hps⟩ := Prog.bind_eq_ok h
    obtain ⟨d, hd, hone⟩ := hf p.2 p.1 s s₁ hp
    obtain ⟨ds, hds, hrest⟩ := ih hps
    refine ⟨d :: ds, ?_, ?_⟩
    · simp only [List.map_cons, List.mapM_cons, hd, hds]
      rfl
    · rw [hrest, hone, T.get_set, T.set_set]
      rfl

/-- a loop over a section that returns asks for nothing exactly if each object is unchanged -/
theorem applyAll_quiet {P : Inventory δ → α → Prop}
    (hf : ∀ slot a s s', f slot a s = (.ok (), s') → QuietIff (P s.inventory a) s s')
    (h : applyAll l f s = (.ok (), s')) : QuietIff (∀ a ∈ l.getD [], P s.inventory a) s s' := by
  unfold applyAll at h
  rw [← List.zipIdx_map_fst 0 (l.getD [])]
  generalize (l.getD []).zipIdx = ps at h
  induction ps generalizing s with
  | nil =>
    obtain rfl := (Prod.mk.inj h).2
    exact ⟨List.prefix_refl _, iff_of_true (.refl s) (by simp), fun _ => rfl⟩
  | cons p ps ih =>
    obtain ⟨_, s₁, hp, hps⟩ := Prog.bind_eq_ok h
    have hfirst := hf p.2 p.1 s s₁ hp
    have hrest := ih hps
    rw [List.map_cons, List.forall_mem_cons]
    refine hfirst.trans (fun hP => ?_) hrest.more
    rwa [hfirst.kept hP] at hrest

end Sections

/-! ## The objects as the command declares them -/

section Declared

variable [DecidableEq δ] (E) (group : String) (reload : Bool) (ns : String)

/-- the secret with the label of the group, where the command does not panic -/
def labelSecret (d : SecretPartial δ) : Option (SecretPartial δ) :=
  (insertNanoclGroup E d.metadata group).map fun metadata => { d with metadata := some metadata }

def labelCargo (d : CargoSpecPartial δ) : Option (CargoSpecPartial δ) :=
  (insertNanoclGroup E d.metadata group).map fun metadata => { d with metadata := some metadata }

def labelVm (d : VmSpecPartial δ) : Option (VmSpecPartial δ) :=
  (insertNanoclGroup E d.metadata group).map fun metadata => { d with metadata := some metadata }

def labelResource (d : ResourcePartial δ) : Option (ResourcePartial δ) :=
  (insertNanoclGroup E d.metadata group).map fun metadata => { d with metadata := some metadata }

/-- the data that the controller of the kind makes of it -/
def hookedData (kind name : String) (data : δ) : δ :=
  match hookData E kind name data with
  | .ok data' => data'
  | .error _ => data

/-- a secret is patched with its data and its metadata -/
def secretRounds : Reconciler String (SecretPartial δ) (Option (SecretPartial δ)) where
  key d := d.name
  step v d := roundStep d (fun s => s = d) (fun s => { s with data := d.data, metadata := d.metadata <|> s.metadata }) v

/-- a cargo is put -/
def cargoRounds : Reconciler String (CargoSpecPartial δ) (Option (Process (CargoSpecPartial δ))) where
  key d := genKey d.name (some ns)
  step v d := roundStep ⟨d, E.statusAfter (.createCargo d.name ns) .starting⟩
    (fun c => decide (c.spec = d) && !reload)
    (fun _ => ⟨d, E.statusAfter (.putCargo d.name ns) .updating⟩) v

/-- a VM is patched -/
def vmRounds : Reconciler String (VmSpecPartial δ) (Option (Process (VmSpecPartial δ))) where
  key d := genKey d.name (some ns)
  step v d := roundStep ⟨createdVm (genKey d.name (some ns)) d, E.statusAfter (.createVm d.name ns) .starting⟩
    (fun v => decide (shownVm v.spec = d) && !reload)
    (fun v => ⟨patchedVm v.spec (vmUpdate d), E.statusAfter (.patchVm d.name ns) .updating⟩) v

/-- a resource is put with its data and its metadata, which go to the controller of the stored kind -/
def resourceRounds : Reconciler String (ResourcePartial δ) (Option (ResourcePartial δ)) where
  key d := d.name
  step v d := roundStep { d with kind := bareKind d.kind, data := hookedData E d.kind d.name d.data }
    (fun r => decide (r = d) && !reload)
    (fun r => ⟨d.name, r.kind, hookedData E r.kind d.name d.data, d.metadata⟩) v

end Declared

/-! ## The rounds of each section -/

section Rounds

variable [DecidableEq δ] {group : String} {reload : Bool} {ns : String} {slot : ℕ} {s s' : Session δ}

omit [DecidableEq δ] in
theorem labelled_bind_ok {metadata : Option δ} {f : δ → ApplyIo δ Unit}
    (h : (labelled E metadata group >>= f) s = (.ok (), s')) :
    ∃ m, insertNanoclGroup E metadata group = some m ∧ f m s = (.ok (), s') := by
  obtain ⟨m, s₁, hlabel, hrest⟩ := Prog.bind_eq_ok h
  unfold labelled at hlabel
  cases hm : insertNanoclGroup E metadata group with
  | none =>
    rw [hm] at hlabel
    cases hlabel
  | some m' =>
    rw [hm] at hlabel
    cases hlabel
    exact ⟨m, rfl, hrest⟩

omit [DecidableEq δ] in
theorem hookedData_of_ok {kind name : String} {data data' : δ} (h : hookData E kind name data = .ok data') :
    hookedData E kind name data = data' := by
  rw [hookedData, h]

theorem applySecret_ok {a : SecretPartial δ} (h : applySecret E group slot a s = (.ok (), s')) :
    ∃ d, labelSecret E group a = some d ∧
      s'.inventory = secretShelf.set s.inventory (secretRounds.one (secretShelf.get s.inventory) d) := by
  obtain ⟨m, hm, hround⟩ := labelled_bind_ok h
  refine ⟨{ a with metadata := some m }, by rw [labelSecret, hm]; rfl, ?_⟩
  refine applyObj_ok { a with metadata := some m } (fun s => { s with data := a.data, metadata := some m })
    (fun s s' hcreate => ?_) (fun s s' hupdate => ?_) hround
  · obtain ⟨hnone, v, hv, hi⟩ := createObj_ok hcreate
    obtain rfl := Except.ok.inj hv
    exact ⟨hnone, hi⟩
  · obtain ⟨v, v', hget, hf, hi⟩ := rewriteObj_ok hupdate
    obtain rfl := Except.ok.inj hf
    exact ⟨v, hget, hi⟩

theorem applyCargo_ok {a : CargoSpecPartial δ} (h : applyCargo E group reload ns slot a s = (.ok (), s')) :
    ∃ d, labelCargo E group a = some d ∧
      s'.inventory = cargoShelf.set s.inventory ((cargoRounds E reload ns).one (cargoShelf.get s.inventory) d) := by
  obtain ⟨m, hm, hround⟩ := labelled_bind_ok h
  refine ⟨{ a with metadata := some m }, by rw [labelCargo, hm]; rfl, ?_⟩
  have hround : applyObj E cargoShelf slot a.name (genKey a.name (some ns)) _ _ _ s = (.ok (), s') := hround
  refine (applyObj_ok ⟨{ a with metadata := some m }, E.statusAfter (.createCargo a.name ns) .starting⟩
    (fun _ => ⟨{ a with metadata := some m }, E.statusAfter (.putCargo a.name ns) .updating⟩)
    (fun s s' hcreate => ?_) (fun s s' hupdate => ?_) hround).trans ?_
  · exact create_start_ok hcreate rfl
  · exact watch_rewrite_ok hupdate
  · simp only [Reconciler.one, cargoRounds]

theorem applyVm_ok {a : VmSpecPartial δ} (h : applyVm E group reload ns slot a s = (.ok (), s')) :
    ∃ d, labelVm E group a = some d ∧
      s'.inventory = vmShelf.set s.inventory ((vmRounds E reload ns).one (vmShelf.get s.inventory) d) := by
  obtain ⟨m, hm, hround⟩ := labelled_bind_ok h
  refine ⟨{ a with metadata := some m }, by rw [labelVm, hm]; rfl, ?_⟩
  have hround : applyObj E vmShelf slot a.name (genKey a.name (some ns)) _ _ _ s = (.ok (), s') := hround
  refine (applyObj_ok ⟨createdVm (genKey a.name (some ns)) { a with metadata := some m },
      E.statusAfter (.createVm a.name ns) .starting⟩
    (fun v => ⟨patchedVm v.spec (vmUpdate { a with metadata := some m }), E.statusAfter (.patchVm a.name ns) .updating⟩)
    (fun s s' hcreate => ?_) (fun s s' hupdate => ?_) hround).trans ?_
  · exact create_start_ok hcreate rfl
  · exact watch_rewrite_ok hupdate
  · simp only [Reconciler.one, vmRounds]

theorem applyResource_ok {a : ResourcePartial δ} (h : applyResource E group reload slot a s = (.ok (), s')) :
    ∃ d, labelResource E group a = some d ∧
      s'.inventory = resourceShelf.set s.inventory ((resourceRounds E reload).one (resourceShelf.get s.inventory) d) := by
  obtain ⟨m, hm, hround⟩ := labelled_bind_ok h
  refine ⟨{ a with metadata := some m }, by rw [labelResource, hm]; rfl, ?_⟩
  refine applyObj_ok ⟨a.name, bareKind a.kind, hookedData E a.kind a.name a.data, some m⟩
    (fun r => ⟨a.name, r.kind, hookedData E r.kind a.name a.data, some m⟩)
    (fun s s' hcreate => ?_) (fun s s' hupdate => ?_) hround
  · obtain ⟨hnone, v, hv, hi⟩ := createObj_ok hcreate
    cases hdata : hookData E a.kind a.name a.data with
    | error e =>
      simp only [hdata, bind, Except.bind] at hv
      cases hv
    | ok data =>
      simp only [hdata, bind, Except.bind] at hv
      obtain rfl := Except.ok.inj hv
      rw [hookedData_of_ok hdata]
      exact ⟨hnone, hi⟩
  · obtain ⟨r, r', hget, hf, hi⟩ := rewriteObj_ok hupdate
    cases hdata : hookData E r.kind a.name a.data with
    | error e =>
      simp only [hdata, bind, Except.bind] at hf
      cases hf
    | ok data =>
      simp only [hdata, bind, Except.bind] at hf
      obtain rfl := Except.ok.inj hf
      refine ⟨r, hget, ?_⟩
      rw [hookedData_of_ok hdata]
      exact hi

end Rounds

/-! ## The jobs -/

section Jobs

variable {group : String} {slot : ℕ}

/-- requests about jobs, which change jobs -/
structure OnlyJobs (s s' : Session δ) : Prop where
  silent : Silent s s'
  others : s'.inventory = { s.inventory with jobs := s'.inventory.jobs }

theorem Silent.extends {s s' : Session δ} (h : Silent s s') : Extends s s' := by
  obtain ⟨l, hl, -⟩ := h
  exact ⟨l, hl.symm⟩

instance : IsPreorder (Session δ) OnlyJobs where
  refl s := ⟨.refl s, rfl⟩
  trans s s₁ s' h h' := by
    refine ⟨(silent_trans_iff h.silent.extends h'.silent.extends).2 ⟨h.silent, h'.silent⟩, ?_⟩
    rw [h'.others, h.others]

theorem onlyJobs_send {α : Type} {r : Sent} {answer : Inventory δ → Except HttpError (α × Inventory δ)}
    (hkind : r.kind = .job) (hanswer : ∀ i a i', answer i = .ok (a, i') → i' = { i with jobs := i'.jobs }) :
    Prog.Keeps OnlyJobs (send E slot r answer) := by
  intro s
  refine ⟨silent_send.2 fun h => absurd hkind h, ?_⟩
  unfold send
  cases E.fault r.kind slot r.verb with
  | some e => rfl
  | none =>
    cases ha : answer s.inventory with
    | error e => rfl
    | ok p => exact hanswer _ p.1 p.2 ha

theorem onlyJobs_createJob (name : String) (job : JobPartial δ) :
    Prog.Keeps OnlyJobs (createObj E jobShelf slot name name (.ok job)) := by
  refine onlyJobs_send rfl fun i a i' h => ?_
  cases hget : i.jobs name with
  | some v => simp [jobShelf, hget] at h
  | none =>
    simp only [jobShelf, hget, bind, Except.bind, pure, Except.pure, Except.ok.injEq, Prod.mk.injEq] at h
    rw [← h.2]
    rfl

theorem onlyJobs_startJob (name : String) :
    Prog.Keeps OnlyJobs (rewriteObj E jobShelf slot name name .start fun j => .ok j) := by
  refine onlyJobs_send rfl fun i a i' h => ?_
  cases hget : i.jobs name with
  | none => simp [jobShelf, hget] at h
  | some v =>
    simp only [jobShelf, hget, bind, Except.bind, pure, Except.pure, Except.ok.injEq, Prod.mk.injEq] at h
    rw [← h.2]
    rfl

theorem onlyJobs_inspectJob (name : String) : Prog.Keeps OnlyJobs (inspectObj E jobShelf slot name name) := by
  refine onlyJobs_send rfl fun i a i' h => ?_
  cases hget : i.jobs name with
  | none => simp [jobShelf, hget] at h
  | some v =>
    simp only [jobShelf, hget, Except.ok.injEq, Prod.mk.injEq] at h
    rw [← h.2]

theorem onlyJobs_watchJob (name : String) (op : Operation) : Prog.Keeps OnlyJobs (watch E jobShelf slot name op) := by
  refine onlyJobs_send rfl fun i a i' h => ?_
  rw [← (Prod.mk.inj (Except.ok.inj h)).2]

theorem onlyJobs_awaitOp (op : Operation) : Prog.Keeps OnlyJobs (awaitOp E op) := by
  unfold awaitOp
  rcases result op (E.watched op) with _ | e | u
  · exact Prog.keeps_fail _
  · exact Prog.keeps_fail _
  · exact Prog.keeps_pure _

/-- a job is cleared, created again and started, and nothing else happens -/
theorem onlyJobs_applyJob (job : JobPartial δ) : Prog.Keeps OnlyJobs (applyJob E group slot job) := by
  have hlabel : Prog.Keeps OnlyJobs (labelled E job.metadata group) := by
    unfold labelled
    cases insertNanoclGroup E job.metadata group with
    | some m => exact Prog.keeps_pure m
    | none => exact Prog.keeps_fail _
  have hdelete : ∀ r : Sent, r.kind = .job → Prog.Keeps OnlyJobs (send E slot r fun i =>
      .ok ((), { i with jobs := Function.update i.jobs job.name none })) := fun r hr =>
    onlyJobs_send hr fun i a i' h => by rw [← (Prod.mk.inj (Except.ok.inj h)).2]
  have hstart : ∀ m, Prog.Keeps OnlyJobs (do
      createObj E jobShelf slot job.name job.name (.ok { job with metadata := some m })
      watch E jobShelf slot job.name (.applyJob job.name)
      rewriteObj E jobShelf slot job.name job.name .start fun j => .ok j
      awaitOp E (.applyJob job.name) : ApplyIo δ Unit) := fun m =>
    Prog.keeps_bind (onlyJobs_createJob _ _) fun _ => Prog.keeps_bind (onlyJobs_watchJob _ _) fun _ =>
      Prog.keeps_bind (onlyJobs_startJob _) fun _ => onlyJobs_awaitOp _
  refine Prog.keeps_bind hlabel fun m => Prog.keeps_bind (Prog.keeps_attempt (onlyJobs_inspectJob _)) fun r => ?_
  cases r with
  | error e => exact hstart m
  | ok v =>
    exact Prog.keeps_bind (onlyJobs_watchJob _ _) fun _ => Prog.keeps_bind (hdelete _ rfl) fun _ =>
      Prog.keeps_bind (onlyJobs_awaitOp _) fun _ => hstart m

end Jobs

/-! ## Rounds that ask for nothing -/

section Unchanged

variable [DecidableEq δ] {group : String} {reload : Bool} {ns : String} {slot : ℕ} {s s' : Session δ}

/-- no inspection is refused -/
def ApplyEnv.Inspects (E : ApplyEnv δ) : Prop := ∀ kind slot, E.fault kind slot .inspect = none

/-- the inspection of the secret shows the declaration -/
def SecretShown (i : Inventory δ) (d : SecretPartial δ) : Prop := i.secrets d.name = some d

def CargoShown (ns : String) (i : Inventory δ) (d : CargoSpecPartial δ) : Prop :=
  ∃ c, i.cargoes (genKey d.name (some ns)) = some c ∧ c.spec = d

def VmShown (ns : String) (i : Inventory δ) (d : VmSpecPartial δ) : Prop :=
  ∃ v, i.vms (genKey d.name (some ns)) = some v ∧ shownVm v.spec = d

def ResourceShown (i : Inventory δ) (d : ResourcePartial δ) : Prop := i.resources d.name = some d

omit [DecidableEq δ] in
theorem QuietIff.of_label {α : Type} {label : α → Option α} {a d : α} {Q : Prop} {P : α → Prop} (hd : label a = some d)
    (h : QuietIff Q s s') (hQ : Q ↔ P d) : QuietIff (∀ d ∈ label a, P d) s s' := by
  refine h.congr ⟨fun hq d' hd' => ?_, fun hall => hQ.2 (hall d hd)⟩
  obtain rfl := Option.some.inj (hd.symm.trans hd')
  exact hQ.1 hq

theorem applySecret_quiet (hE : E.Inspects) {a : SecretPartial δ} (h : applySecret E group slot a s = (.ok (), s')) :
    QuietIff (∀ d ∈ labelSecret E group a, SecretShown s.inventory d) s s' := by
  obtain ⟨m, hm, hround⟩ := labelled_bind_ok h
  refine .of_label (by rw [labelSecret, hm, Option.map_some]) (applyObj_quiet (hE ..)
    (loud_send (fun h => by cases h) (fun h => by cases h)) (loud_send (fun h => by cases h) (fun h => by cases h))
    hround) ?_
  simp only [decide_eq_true_eq, exists_eq_right]
  rfl

theorem applyCargo_quiet (hE : E.Inspects) {a : CargoSpecPartial δ}
    (h : applyCargo E group false ns slot a s = (.ok (), s')) :
    QuietIff (∀ d ∈ labelCargo E group a, CargoShown ns s.inventory d) s s' := by
  obtain ⟨m, hm, hround⟩ := labelled_bind_ok h
  have hround : applyObj E cargoShelf slot a.name (genKey a.name (some ns)) _ _ _ s = (.ok (), s') := hround
  refine .of_label (by rw [labelCargo, hm, Option.map_some]) (applyObj_quiet (hE ..)
    (loud_of_first (fun h => by cases h) (fun h => by cases h) fun _ => extends_watch_rewrite _ _ _)
    (loud_of_first (fun h => by cases h) (fun h => by cases h) fun _ =>
      Prog.keeps_bind (extends_send _ _) fun _ => extends_awaitOp _) hround) ?_
  simp only [Bool.not_false, Bool.and_true, decide_eq_true_eq]
  rfl

theorem applyVm_quiet (hE : E.Inspects) {a : VmSpecPartial δ} (h : applyVm E group false ns slot a s = (.ok (), s')) :
    QuietIff (∀ d ∈ labelVm E group a, VmShown ns s.inventory d) s s' := by
  obtain ⟨m, hm, hround⟩ := labelled_bind_ok h
  have hround : applyObj E vmShelf slot a.name (genKey a.name (some ns)) _ _ _ s = (.ok (), s') := hround
  refine .of_label (by rw [labelVm, hm, Option.map_some]) (applyObj_quiet (hE ..)
    (loud_of_first (fun h => by cases h) (fun h => by cases h) fun _ => extends_watch_rewrite _ _ _)
    (loud_of_first (fun h => by cases h) (fun h => by cases h) fun _ =>
      Prog.keeps_bind (extends_send _ _) fun _ => extends_awaitOp _) hround) ?_
  simp only [Bool.not_false, Bool.and_true, decide_eq_true_eq]
  rfl

theorem applyResource_quiet (hE : E.Inspects) {a : ResourcePartial δ}
    (h : applyResource E group false slot a s = (.ok (), s')) :
    QuietIff (∀ d ∈ labelResource E group a, ResourceShown s.inventory d) s s' := by
  obtain ⟨m, hm, hround⟩ := labelled_bind_ok h
  refine .of_label (by rw [labelResource, hm, Option.map_some]) (applyObj_quiet (hE ..)
    (loud_send (fun h => by cases h) (fun h => by cases h)) (loud_send (fun h => by cases h) (fun h => by cases h))
    hround) ?_
  simp only [Bool.not_false, Bool.and_true, decide_eq_true_eq, exists_eq_right]
  rfl

end Unchanged

end Nanocl.Cli
