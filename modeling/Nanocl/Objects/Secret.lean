/-
The requests on secrets (`services/secret`, `objects/secret.rs`, `repositories/secret.rs`). A secret bears the flag
`immutable`, "the secret cannot be updated"; the creation stores it, and nothing reads it.

- `Immutable`: from its creation to its deletion a secret that is marked so has the kind, the data and the metadata it
  was created with.
- `immutable_iff`: a run keeps this exactly if each patch of such a secret that the database carries out sends the data
  it already has, and no metadata or the metadata it already has.
- `patched_immutable`: a patch replaces the data of a secret that is marked immutable.
-/
import Nanocl.Lib.Transition
import Nanocl.Objects.Resource

namespace Nanocl.Objects

open Nanocl.Lib

variable {δ : Type}

/-! ## Model -/

structure SecretPartial (δ : Type) where
  name : String
  kind : String
  immutable : Bool
  metadata : Option δ
  data : δ
deriving DecidableEq

structure SecretUpdate (δ : Type) where
  metadata : Option δ
  data : δ
deriving DecidableEq

/-- a row of `secrets` -/
structure SecretDb (δ : Type) where
  key : String
  kind : String
  immutable : Bool
  data : δ
  metadata : Option δ
deriving DecidableEq

/-- `From<&SecretPartial> for SecretDb` -/
def SecretPartial.row (p : SecretPartial δ) : SecretDb δ := ⟨p.name, p.kind, p.immutable, p.data, p.metadata⟩

/-- the columns that `SecretUpdateDb` changes: the metadata only if there is some -/
def SecretUpdate.set (u : SecretUpdate δ) (row : SecretDb δ) : SecretDb δ :=
  { row with data := u.data, metadata := u.metadata <|> row.metadata }

theorem SecretUpdate.set_key (u : SecretUpdate δ) (row : SecretDb δ) : (u.set row).key = row.key := rfl

structure SecretEnv (δ : Type) where
  /-- the calls that fail -/
  fault : ℕ → Option HttpError
  /-- what the database says about a write it refuses -/
  details : String → String
  /-- the data of the kinds that the daemon knows, read as `ProxySslConfig`, `Vec<String>` and `DockerCredentials` -/
  sslConfig : δ → Except String Unit
  envs : δ → Except String Unit
  credentials : δ → Except String Unit

structure SecretWorld (δ : Type) where
  secrets : Table (SecretDb.key (δ := δ))
  events : List Runtime.Emitted
  /-- how many calls the requests have made -/
  calls : ℕ

def SecretWorld.init : SecretWorld δ := ⟨.empty, [], 0⟩

def SecretWorld.tick (w : SecretWorld δ) : SecretWorld δ := { w with calls := w.calls + 1 }

abbrev SecretIo (δ α : Type) := Prog (SecretWorld δ) HttpError α

variable (E : SecretEnv δ)

/-- one statement: it may fail on its own, or be refused -/
def secretCall {α : Type} (f : Table (SecretDb.key (δ := δ)) → Except HttpError (α × Table (SecretDb.key (δ := δ)))) :
    SecretIo δ α := fun w =>
  match E.fault w.calls with
  | some e => (.error e, w.tick)
  | none =>
    match f w.secrets with
    | .error e => (.error e, w.tick)
    | .ok (a, t) => (.ok a, { w.tick with secrets := t })

/-- `SecretDb::create_from` -/
def createSecretRow (p : SecretPartial δ) : SecretIo δ (SecretDb δ) := secretCall E fun t =>
  match t.insert p.row with
  | some t' => .ok (p.row, t')
  | none => .error ⟨409, "SecretDb: " ++ E.details "SecretDb"⟩

/-- `SecretDb::update_pk` -/
def updateSecretRow (pk : String) (u : SecretUpdate δ) : SecretIo δ (SecretDb δ) := secretCall E fun t =>
  match t.find pk with
  | some row => .ok (u.set row, t.update pk u.set u.set_key)
  | none => .error (notFound "SecretDb")

/-- `SecretDb::read_by_pk` -/
def readSecretRow (pk : String) : SecretIo δ (SecretDb δ) := secretCall E fun t =>
  match t.find pk with
  | some row => .ok (row, t)
  | none => .error (notFound "SecretDb")

/-- `SecretDb::del_by_pk` -/
def delSecretRow (pk : String) : SecretIo δ Unit := secretCall E fun t => .ok ((), t.delete pk)

/-- `emit_normal_native_action_sync`: an event that cannot be stored is only logged -/
def emitSecret (action : NativeEventAction) (key : String) (w : SecretWorld δ) : SecretWorld δ :=
  match E.fault w.calls with
  | some _ => w.tick
  | none => { w.tick with events := w.events ++ [⟨.normal, action, .secret, key⟩] }

/-- what `create_secret` checks before it stores anything -/
def checkSecret (p : SecretPartial δ) : Except HttpError Unit := do
  ensureKind p.kind
  let read : Except String Unit := match p.kind with
    | "nanocl.io/tls" => E.sslConfig p.data
    | "nanocl.io/env" => E.envs p.data
    | "nanocl.io/container-registry" => E.credentials p.data
    | _ => .ok ()
  read.mapError badRequest

/-- `create_secret`, with `SecretDb::create_obj` -/
def createSecret (p : SecretPartial δ) : SecretIo δ Unit := do
  (fun w => (checkSecret E p, w) : SecretIo δ Unit)
  let secret ← createSecretRow E p
  Prog.modify (emitSecret E .create secret.key)

/-- `patch_secret`, with `SecretDb::patch_obj_by_pk` -/
def patchSecret (pk : String) (u : SecretUpdate δ) : SecretIo δ Unit := do
  let secret ← updateSecretRow E pk u
  Prog.modify (emitSecret E .update secret.key)

/-- `delete_secret`, with `SecretDb::del_obj_by_pk` -/
def deleteSecret (pk : String) : SecretIo δ Unit := do
  let secret ← readSecretRow E pk
  delSecretRow E pk
  Prog.modify (emitSecret E .destroy secret.key)

inductive SecretOp (δ : Type) where
  | create (p : SecretPartial δ)
  | patch (pk : String) (u : SecretUpdate δ)
  | delete (pk : String)

def SecretOp.run : SecretOp δ → SecretIo δ Unit
  | create p => createSecret E p
  | patch pk u => patchSecret E pk u
  | delete pk => deleteSecret E pk

def secretStep (w : SecretWorld δ) (op : SecretOp δ) : SecretWorld δ := (op.run E w).2

/-! ## Property and condition -/

/-- the request deletes the secret -/
def Deletes (name : String) (w : SecretWorld δ) (op : SecretOp δ) : Prop :=
  op = .delete name ∧ (op.run E w).1 = .ok ()

/-- the requests create the secret, and do not delete it afterwards -/
def Created (p : SecretPartial δ) (ops : List (SecretOp δ)) : Prop :=
  ∃ pre mid, ops = pre ++ .create p :: mid ∧ ((SecretOp.create p).run E (run (secretStep E) .init pre)).1 = .ok () ∧
    Along (secretStep E) (fun w op => ¬ Deletes E p.name w op) (run (secretStep E) .init (pre ++ [.create p])) mid

/-- the secret is there with the kind, the data and the metadata of its creation -/
def SecretWorld.Holds (w : SecretWorld δ) (p : SecretPartial δ) : Prop :=
  ∃ row, w.secrets.find p.name = some row ∧ row.kind = p.kind ∧ row.data = p.data ∧ row.metadata = p.metadata

/-- secrets that are marked immutable stay as they were created, all along the requests -/
def Immutable (ops : List (SecretOp δ)) : Prop :=
  ∀ pre post, ops = pre ++ post → ∀ p, Created E p pre → p.immutable = true → (run (secretStep E) .init pre).Holds p

/-- the request does not change a secret that is marked immutable -/
def SecretOp.Spares (w : SecretWorld δ) : SecretOp δ → Prop
  | patch pk u => E.fault w.calls = none → ∀ row, w.secrets.find pk = some row → row.immutable = true →
      u.data = row.data ∧ (u.metadata = none ∨ u.metadata = row.metadata)
  | _ => True

/-! ## What the requests do to the rows -/

variable {E}

@[simp] theorem emitSecret_secrets (action : NativeEventAction) (key : String) (w : SecretWorld δ) :
    (emitSecret E action key w).secrets = w.secrets := by
  unfold emitSecret
  split <;> rfl

/-- the insertion of a row -/
theorem createSecretRow_cases (p : SecretPartial δ) (w : SecretWorld δ) :
    (∃ t, w.secrets.insert p.row = some t ∧ createSecretRow E p w = (.ok p.row, { w.tick with secrets := t })) ∨
    ∃ e, createSecretRow E p w = (.error e, w.tick) := by
  simp only [createSecretRow, secretCall]
  cases hcall : E.fault w.calls with
  | some e => exact .inr ⟨e, rfl⟩
  | none =>
    cases hins : w.secrets.insert p.row with
    | none => exact .inr ⟨_, rfl⟩
    | some t => exact .inl ⟨t, rfl, rfl⟩

/-- the update of a row -/
theorem updateSecretRow_cases (pk : String) (u : SecretUpdate δ) (w : SecretWorld δ) :
    (∃ row, E.fault w.calls = none ∧ w.secrets.find pk = some row ∧ updateSecretRow E pk u w =
      (.ok (u.set row), { w.tick with secrets := w.secrets.update pk u.set u.set_key })) ∨
    ∃ e, (E.fault w.calls = none → w.secrets.find pk = none) ∧ updateSecretRow E pk u w = (.error e, w.tick) := by
  simp only [updateSecretRow, secretCall]
  cases hcall : E.fault w.calls with
  | some e => exact .inr ⟨e, fun h => absurd h (Option.some_ne_none e), rfl⟩
  | none =>
    cases hfind : w.secrets.find pk with
    | none => exact .inr ⟨_, fun _ => rfl, rfl⟩
    | some row => exact .inl ⟨row, rfl, rfl, rfl⟩

theorem readSecretRow_cases (pk : String) (w : SecretWorld δ) :
    (∃ row, readSecretRow E pk w = (.ok row, w.tick)) ∨ ∃ e, readSecretRow E pk w = (.error e, w.tick) := by
  simp only [readSecretRow, secretCall]
  cases hcall : E.fault w.calls with
  | some e => exact .inr ⟨e, rfl⟩
  | none =>
    cases hfind : w.secrets.find pk with
    | none => exact .inr ⟨_, rfl⟩
    | some row => exact .inl ⟨row, rfl⟩

theorem delSecretRow_cases (pk : String) (w : SecretWorld δ) :
    delSecretRow E pk w = (.ok (), { w.tick with secrets := w.secrets.delete pk }) ∨
      ∃ e, delSecretRow E pk w = (.error e, w.tick) := by
  simp only [delSecretRow, secretCall]
  cases hcall : E.fault w.calls with
  | some e => exact .inr ⟨e, rfl⟩
  | none => exact .inl rfl

/-- a creation adds its row, or fails and changes nothing -/
theorem createSecret_cases (p : SecretPartial δ) (w : SecretWorld δ) :
    ((createSecret E p w).1 = .ok () ∧ w.secrets.insert p.row = some (createSecret E p w).2.secrets) ∨
    ((createSecret E p w).1 ≠ .ok () ∧ (createSecret E p w).2.secrets = w.secrets) := by
  unfold createSecret
  cases hcheck : checkSecret E p with
  | error e => exact .inr ⟨nofun, rfl⟩
  | ok u =>
    rw [Prog.bind_of_ok (show _ = (Except.ok u, w) from rfl)]
    rcases createSecretRow_cases (E := E) p w with ⟨t, hins, hrow⟩ | ⟨e, hrow⟩
    · rw [Prog.bind_of_ok hrow, Prog.run_modify, emitSecret_secrets]
      exact .inl ⟨rfl, hins⟩
    · rw [Prog.bind_of_error hrow]
      exact .inr ⟨nofun, rfl⟩

/-- a patch changes the row of its key, if the database answers -/
theorem patchSecret_find (pk : String) (u : SecretUpdate δ) (w : SecretWorld δ) (k : String) :
    (patchSecret E pk u w).2.secrets.find k =
      if E.fault w.calls = none ∧ k = pk then (w.secrets.find k).map u.set else w.secrets.find k := by
  unfold patchSecret
  rcases updateSecretRow_cases (E := E) pk u w with ⟨row, hanswer, hfind, hrow⟩ | ⟨e, hnone, hrow⟩
  · rw [Prog.bind_of_ok hrow, Prog.run_modify, emitSecret_secrets, Table.find_update]
    by_cases hk : k = pk
    · simp [hk, hanswer]
    · simp [hk]
  · rw [Prog.bind_of_error hrow]
    change w.secrets.find k = _
    split_ifs with hk
    · obtain ⟨hanswer, rfl⟩ := hk
      rw [hnone hanswer]
      rfl
    · rfl

/-- a deletion removes the row of its key, or fails and changes nothing -/
theorem deleteSecret_cases (pk : String) (w : SecretWorld δ) :
    ((deleteSecret E pk w).1 = .ok () ∧ (deleteSecret E pk w).2.secrets = w.secrets.delete pk) ∨
    ((deleteSecret E pk w).1 ≠ .ok () ∧ (deleteSecret E pk w).2.secrets = w.secrets) := by
  unfold deleteSecret
  rcases readSecretRow_cases (E := E) pk w with ⟨row, hread⟩ | ⟨e, hread⟩
  · rw [Prog.bind_of_ok hread]
    rcases delSecretRow_cases (E := E) pk w.tick with hdel | ⟨e, hdel⟩
    · rw [Prog.bind_of_ok hdel, Prog.run_modify, emitSecret_secrets]
      exact .inl ⟨rfl, rfl⟩
    · rw [Prog.bind_of_error hdel]
      exact .inr ⟨nofun, rfl⟩
  · rw [Prog.bind_of_error hread]
    exact .inr ⟨nofun, rfl⟩

/-- a row that was there stays, unless it is deleted; only a patch changes it -/
theorem find_step {k : String} {row : SecretDb δ} {w : SecretWorld δ} {op : SecretOp δ}
    (h : w.secrets.find k = some row) (hdel : ¬ Deletes E k w op) :
    ∃ row', (secretStep E w op).secrets.find k = some row' ∧
      (row' = row ∨ ∃ u, op = .patch k u ∧ E.fault w.calls = none ∧ row' = u.set row) := by
  cases op with
  | create p =>
    refine ⟨row, ?_, .inl rfl⟩
    rcases createSecret_cases (E := E) p w with ⟨-, hins⟩ | ⟨-, hsame⟩
    · exact Table.find_insert_of_find hins h
    · rw [secretStep, SecretOp.run, hsame, h]
  | patch pk u =>
    have hfind := patchSecret_find (E := E) pk u w k
    by_cases hc : E.fault w.calls = none ∧ k = pk
    · rw [if_pos hc, h, Option.map_some] at hfind
      obtain ⟨hanswer, rfl⟩ := hc
      exact ⟨u.set row, hfind, .inr ⟨u, rfl, hanswer, rfl⟩⟩
    · rw [if_neg hc] at hfind
      exact ⟨row, hfind.trans h, .inl rfl⟩
  | delete pk =>
    refine ⟨row, ?_, .inl rfl⟩
    rcases deleteSecret_cases (E := E) pk w with ⟨hok, hgone⟩ | ⟨-, hsame⟩
    · rw [secretStep, SecretOp.run, hgone, Table.find_delete, if_neg, h]
      intro heq
      subst heq
      exact hdel ⟨rfl, hok⟩
    · rw [secretStep, SecretOp.run, hsame, h]

/-- a row that is there was created by the request, or was there before -/
theorem find_of_step {k : String} {row : SecretDb δ} {w : SecretWorld δ} {op : SecretOp δ}
    (h : (secretStep E w op).secrets.find k = some row) :
    (∃ p, op = .create p ∧ (op.run E w).1 = .ok () ∧ p.name = k ∧ p.row = row) ∨
    (¬ Deletes E k w op ∧ ∃ row', w.secrets.find k = some row' ∧ row'.immutable = row.immutable) := by
  cases op with
  | create p =>
    have hno : ¬ Deletes E k w (.create p) := by
      intro hd
      cases hd.1
    rcases createSecret_cases (E := E) p w with ⟨hok, hins⟩ | ⟨-, hsame⟩
    · rw [secretStep, SecretOp.run, Table.find_insert hins] at h
      split_ifs at h with hk
      · exact .inl ⟨p, rfl, hok, hk, Option.some.inj h⟩
      · exact .inr ⟨hno, row, h, rfl⟩
    · rw [secretStep, SecretOp.run, hsame] at h
      exact .inr ⟨hno, row, h, rfl⟩
  | patch pk u =>
    have hno : ¬ Deletes E k w (.patch pk u) := by
      intro hd
      cases hd.1
    rw [secretStep, SecretOp.run, patchSecret_find] at h
    split_ifs at h
    · obtain ⟨row', hrow', rfl⟩ := Option.map_eq_some_iff.1 h
      exact .inr ⟨hno, row', hrow', rfl⟩
    · exact .inr ⟨hno, row, h, rfl⟩
  | delete pk =>
    rcases deleteSecret_cases (E := E) pk w with ⟨-, hdel⟩ | ⟨herr, hsame⟩
    · rw [secretStep, SecretOp.run, hdel, Table.find_delete] at h
      split_ifs at h with hk
      exact .inr ⟨fun hd => hk (SecretOp.delete.inj hd.1).symm, row, h, rfl⟩
    · rw [secretStep, SecretOp.run, hsame] at h
      exact .inr ⟨fun hd => herr hd.2, row, h, rfl⟩

/-! ## Runs -/

/-- a secret is created by the last request, or was before and the last request does not delete it -/
theorem created_snoc {p : SecretPartial δ} {ops : List (SecretOp δ)} {op : SecretOp δ} :
    Created E p (ops ++ [op]) ↔
      (op = .create p ∧ (op.run E (run (secretStep E) .init ops)).1 = .ok ()) ∨
      (Created E p ops ∧ ¬ Deletes E p.name (run (secretStep E) .init ops) op) := by
  constructor
  · intro ⟨pre, mid, heq, hok, halong⟩
    rcases List.eq_nil_or_concat mid with rfl | ⟨mid, op', rfl⟩
    · obtain ⟨rfl, hop⟩ := List.append_inj' heq rfl
      obtain rfl := List.singleton_inj.1 hop
      exact .inl ⟨rfl, hok⟩
    · rw [List.concat_eq_append, ← List.cons_append, ← List.append_assoc] at heq
      obtain ⟨rfl, hop⟩ := List.append_inj' heq rfl
      obtain rfl := List.singleton_inj.1 hop
      rw [List.concat_eq_append, along_append, ← run_append, List.append_assoc] at halong
      exact .inr ⟨⟨pre, mid, rfl, hok, halong.1⟩, halong.2.1⟩
  · rintro (⟨rfl, hok⟩ | ⟨⟨pre, mid, rfl, hok, halong⟩, hkept⟩)
    · exact ⟨ops, [], rfl, hok, trivial⟩
    · refine ⟨pre, mid ++ [op], by simp, hok, ?_⟩
      rw [along_append, ← run_append, List.append_assoc]
      exact ⟨halong, hkept, trivial⟩

/-- each row goes back to a creation, with the flag it was given -/
theorem exists_created (ops : List (SecretOp δ)) {k : String} {row : SecretDb δ}
    (h : (run (secretStep E) .init ops).secrets.find k = some row) :
    ∃ p, Created E p ops ∧ p.name = k ∧ p.immutable = row.immutable := by
  induction ops using List.reverseRecOn generalizing row with
  | nil => cases h
  | append_singleton ops op ih =>
    rw [run_append] at h
    rcases find_of_step h with ⟨p, rfl, hok, hk, rfl⟩ | ⟨hdel, row', hrow', hflag⟩
    · exact ⟨p, created_snoc.2 (.inl ⟨rfl, hok⟩), hk, rfl⟩
    · obtain ⟨p, hp, rfl, hpflag⟩ := ih hrow'
      exact ⟨p, created_snoc.2 (.inr ⟨hp, hdel⟩), rfl, hpflag.trans hflag⟩

/-- a secret that was created and not deleted has a row, with the flag it was given -/
theorem find_of_created {ops : List (SecretOp δ)} {p : SecretPartial δ} (h : Created E p ops) :
    ∃ row, (run (secretStep E) .init ops).secrets.find p.name = some row ∧ row.immutable = p.immutable := by
  induction ops using List.reverseRecOn with
  | nil =>
    obtain ⟨pre, mid, heq, -⟩ := h
    cases pre <;> cases heq
  | append_singleton ops op ih =>
    rw [run_append]
    rcases created_snoc.1 h with ⟨rfl, hok⟩ | ⟨hp, hdel⟩
    · rcases createSecret_cases (E := E) p (run (secretStep E) .init ops) with ⟨-, hins⟩ | ⟨herr, -⟩
      · exact ⟨p.row, Table.find_insert_self hins, rfl⟩
      · exact absurd hok herr
    · obtain ⟨row, hrow, hflag⟩ := ih hp
      obtain ⟨row', hrow', rfl | ⟨u, -, -, rfl⟩⟩ := find_step hrow hdel
      · exact ⟨row', hrow', hflag⟩
      · exact ⟨u.set row, hrow', hflag⟩

/-- the update leaves the row as it was -/
theorem SecretUpdate.set_eq_iff {u : SecretUpdate δ} {row : SecretDb δ} :
    ((u.set row).data = row.data ∧ (u.set row).metadata = row.metadata) ↔
      u.data = row.data ∧ (u.metadata = none ∨ u.metadata = row.metadata) := by
  refine and_congr Iff.rfl ?_
  cases hm : u.metadata with
  | none => simp [SecretUpdate.set, hm]
  | some m => simp [SecretUpdate.set, hm]

/-- the secrets that are marked immutable are as they were created, at the end of the requests -/
theorem immutable_snoc {ops : List (SecretOp δ)} {op : SecretOp δ} : Immutable E (ops ++ [op]) ↔
    Immutable E ops ∧ ∀ p, Created E p (ops ++ [op]) → p.immutable = true →
      (run (secretStep E) .init (ops ++ [op])).Holds p := by
  constructor
  · intro h
    refine ⟨fun pre post heq => h pre (post ++ [op]) (by rw [heq, List.append_assoc]), ?_⟩
    exact h (ops ++ [op]) [] (List.append_nil _).symm
  · intro ⟨h, hlast⟩ pre post heq
    rcases List.eq_nil_or_concat post with rfl | ⟨post, op', rfl⟩
    · rw [List.append_nil] at heq
      rw [← heq]
      exact hlast
    · rw [List.concat_eq_append, ← List.append_assoc] at heq
      exact h pre post (List.append_inj' heq rfl).1

variable (E) in
/-- **Secrets marked immutable stay as they were created exactly if every patch of one sends what it already holds.** -/
theorem immutable_iff (ops : List (SecretOp δ)) :
    Immutable E ops ↔ Along (secretStep E) (SecretOp.Spares E) .init ops := by
  induction ops using List.reverseRecOn with
  | nil =>
    refine iff_of_true (fun pre post heq p hp _ => ?_) trivial
    obtain ⟨rfl, -⟩ := List.append_eq_nil_iff.1 heq.symm
    obtain ⟨a, b, heq', -⟩ := hp
    cases a <;> cases heq'
  | append_singleton ops op ih =>
    rw [immutable_snoc, along_append, ← ih]
    refine and_congr_right fun hbefore => ?_
    have hnow : ∀ p, Created E p ops → p.immutable = true → (run (secretStep E) .init ops).Holds p :=
      hbefore ops [] (List.append_nil _).symm
    have hrun : run (secretStep E) .init (ops ++ [op]) = secretStep E (run (secretStep E) .init ops) op :=
      run_append ..
    rw [hrun]
    constructor
    · intro hafter
      refine ⟨?_, trivial⟩
      cases op with
      | create p => trivial
      | delete pk => trivial
      | patch pk u =>
        intro hanswer row hrow hflag
        obtain ⟨p, hp, rfl, hpflag⟩ := exists_created ops hrow
        rw [hflag] at hpflag
        obtain ⟨row₀, hrow₀, -, hdata₀, hmeta₀⟩ := hnow p hp hpflag
        obtain rfl := Option.some.inj (hrow.symm.trans hrow₀)
        obtain ⟨row₁, hrow₁, -, hdata₁, hmeta₁⟩ := hafter p (created_snoc.2 (.inr ⟨hp, nofun⟩)) hpflag
        rw [secretStep, SecretOp.run, patchSecret_find, if_pos ⟨hanswer, rfl⟩, hrow, Option.map_some] at hrow₁
        obtain rfl := Option.some.inj hrow₁
        exact SecretUpdate.set_eq_iff.1 ⟨hdata₁.trans hdata₀.symm, hmeta₁.trans hmeta₀.symm⟩
    · intro hspares p hp hpflag
      rcases created_snoc.1 hp with ⟨rfl, hok⟩ | ⟨hold, hdel⟩
      · -- the creation itself
        rcases createSecret_cases (E := E) p (run (secretStep E) .init ops) with ⟨-, hins⟩ | ⟨herr, -⟩
        · exact ⟨p.row, Table.find_insert_self hins, rfl, rfl, rfl⟩
        · exact absurd hok herr
      · obtain ⟨row, hrow, hkind, hdata, hmeta⟩ := hnow p hold hpflag
        obtain ⟨row', hrow', rfl | ⟨u, rfl, hanswer, rfl⟩⟩ := find_step hrow hdel
        · exact ⟨row', hrow', hkind, hdata, hmeta⟩
        · obtain ⟨row₀, hrow₀, hflag⟩ := find_of_created hold
          obtain rfl := Option.some.inj (hrow.symm.trans hrow₀)
          obtain ⟨hd, hm⟩ := SecretUpdate.set_eq_iff.2 (hspares.1 hanswer row hrow (hflag.trans hpflag))
          exact ⟨u.set row, hrow', hkind, hd.trans hdata, hm.trans hmeta⟩

/-- JSON texts, an environment where every call answers and all data is accepted -/
def SecretEnv.plain : SecretEnv String := ⟨fun _ => none, fun _ => "", fun _ => .ok (), fun _ => .ok (), fun _ => .ok ()⟩

/-- a password that is marked immutable is replaced -/
theorem patched_immutable : ¬ ∀ ops, Immutable SecretEnv.plain ops := by
  intro h
  let p : SecretPartial String := ⟨"db", "app.io/password", true, none, "old"⟩
  have hp : Created SecretEnv.plain p [.create p, .patch "db" ⟨none, "new"⟩] :=
    ⟨[], [.patch "db" ⟨none, "new"⟩], rfl, by decide, nofun, trivial⟩
  obtain ⟨row, hrow, -, hdata, -⟩ := h _ _ [] (List.append_nil _).symm p hp rfl
  have hnew : (run (secretStep SecretEnv.plain) .init [.create p, .patch "db" ⟨none, "new"⟩]).secrets.find p.name =
      some ⟨"db", "app.io/password", true, "new", none⟩ := by decide
  obtain rfl := Option.some.inj (hnew.symm.trans hrow)
  exact absurd hdata (by decide)

end Nanocl.Objects
