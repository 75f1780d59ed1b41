/-
The keys of cargoes and VMs, and what two programs read in them: the target of a rule is `name.namespace.kind`, which
`ncproxy` takes apart, and the key of a cargo is `name.namespace`, which the daemon takes apart when it starts.

A name has no dot, but nothing validates the name of a namespace. The decoder of targets takes the first three components
and leaves the others, and the daemon passes over a key that has not exactly two.

- `namespace_accepted`: every name is accepted for a namespace.

- `key_decoded_iff`: both decoders return the name and the namespace, and the rules listed for a cargo resolve to it,
  exactly if the name of the namespace has no dot.

Counterexample: `rule_of_other_cargo`.
-/
import Nanocl.Lib.Split
import Nanocl.Objects.Keys
import Nanocl.Proxy.Resources

namespace Nanocl.Proxy

open Nanocl.Lib Nanocl.Objects

variable {δ : Type} (E : Objects.Env δ)

/-! ## Names that are accepted -/

/-- `NamespaceDb::fn_create_obj` -/
def createNamespaceObj (name : String) : Objects.Io δ Unit := do
  match ← Prog.attempt (readNamespace E name) with
  | .ok _ => Prog.fail (conflict ("Namespace " ++ name ++ ": already exist"))
  | .error _ => createNamespace E ⟨name⟩

variable {E} in
/-- a namespace of any name is created if it is not there yet -/
theorem namespace_accepted {w : Objects.World δ} {name : String} (hnew : w.db.namespaces.find name = none)
    (h₀ : E.fault w.calls = none) (h₁ : E.fault (w.calls + 1) = none) : (createNamespaceObj E name w).1 = .ok () := by
  have hread : readNamespace E name w = (.error (notFound "NamespaceDb"), w.tick) := by
    rw [readNamespace, query_of_answer h₀, hnew]
    rfl
  have hinsert : ∃ db, insertNamespace E ⟨name⟩ w.tick.db = .ok db := by
    have hnone : w.tick.db.namespaces.find name = none := hnew
    cases ht : w.tick.db.namespaces.insert ⟨name⟩ with
    | none => exact absurd hnone (Table.insert_eq_none.1 ht)
    | some t => exact ⟨_, by rw [insertNamespace, ht]⟩
  obtain ⟨db, hdb⟩ := hinsert
  have hcreate : createNamespace E ⟨name⟩ w.tick = (.ok (), w.tick.after 1 db) := exec_of_ok h₁ hdb
  unfold createNamespaceObj
  rw [Prog.run_bind, Prog.run_attempt, hread]
  dsimp only
  rw [hcreate]

/-- the names of cargoes and VMs that a creation accepts -/
def AcceptedName : ObjectKind → String → Prop
  | .cargo, name => validName E name = true
  | .vm, name => '.' ∉ name.toList

theorem AcceptedName.dotless {kind : ObjectKind} {name : String} (h : AcceptedName E kind name) : '.' ∉ name.toList := by
  cases kind with
  | cargo => exact dotless_of_validName h
  | vm => exact h

/-! ## Decoding -/

/-- the last component of a target: what the key is of -/
def kindLetter : ObjectKind → String
  | .cargo => "c"
  | .vm => "v"

/-- `name.namespace.kind` -/
def targetKey (kind : ObjectKind) (name nsp : String) : String := name ++ "." ++ nsp ++ "." ++ kindLetter kind

/-- the upstream of a cargo: its key and the addresses of its instances -/
def cargoUpstream (client : Nginx.NanocldClient) (name nsp : String) (port : UInt16) :
    Except String (String × List String) := do
  let cargo ← client.inspectCargo name nsp
  let addresses ← Nginx.getAddresses cargo.instances "nanoclbr0"
  .ok (cargo.cargoKey ++ "-" ++ toString port.toNat ++ "-cargo", addresses)

/-- a rule has a target with the key of the cargo, and every one of them resolves to the cargo -/
def ResolvesTo {ι φ : Type} (rule : ResourceProxyRule ι φ) (name nsp : String) : Prop :=
  (∃ e ∈ rule.rules, ∃ t ∈ e.targets, t.key = targetKey .cargo name nsp) ∧
    ∀ e ∈ rule.rules, ∀ t ∈ e.targets, t.key = targetKey .cargo name nsp →
      ∀ client, Nginx.upstreamOf client t = cargoUpstream client name nsp t.port

/-- the decoders return what was encoded, and a rule that is listed for a cargo resolves to it -/
structure Decoded (kind : ObjectKind) (name nsp : String) : Prop where
  target : Nginx.parseUpstreamTarget (targetKey kind name nsp) = .ok (name, nsp, kindLetter kind)
  sync : Sync.splitKey (genKey nsp name) = some (name, nsp)
  listed : kind = .cargo → ∀ {ι φ : Type} (ip : IpText ι) (float : Codec φ) (externals : Externals)
    (resources listed : List ResourceDb), listByCargo externals name (some nsp) resources = .ok listed →
    ∀ r ∈ listed, ∀ rule, Lib.Json.Same ((resourceProxyRule ip float).encode rule) r.data → ResolvesTo rule name nsp

theorem splitOn_targetKey (kind : ObjectKind) {name : String} (hname : '.' ∉ name.toList) (nsp : String) :
    (targetKey kind name nsp).toList.splitOn '.' =
      name.toList :: (nsp.toList.splitOn '.' ++ [(kindLetter kind).toList]) := by
  have hkey : (targetKey kind name nsp).toList =
      name.toList ++ '.' :: (nsp.toList ++ '.' :: (kindLetter kind).toList) := by
    simp [targetKey]
  have hletter : (kindLetter kind).toList.splitOn '.' = [(kindLetter kind).toList] := by
    cases kind <;> rfl
  rw [hkey, List.splitOn_append_cons_self_of_not_mem hname, List.splitOn_append_cons_self, hletter]

theorem parse_targetKey (kind : ObjectKind) {name nsp : String} (hname : '.' ∉ name.toList) (hnsp : '.' ∉ nsp.toList) :
    Nginx.parseUpstreamTarget (targetKey kind name nsp) = .ok (name, nsp, kindLetter kind) := by
  rw [Nginx.parseUpstreamTarget, splitOn_targetKey kind hname, List.splitOn_eq_singleton hnsp]
  simp

theorem splitKey_genKey {name nsp : String} (hname : '.' ∉ name.toList) (hnsp : '.' ∉ nsp.toList) :
    Sync.splitKey (genKey nsp name) = some (name, nsp) := by
  have hkey : (genKey nsp name).toList = name.toList ++ '.' :: nsp.toList := by simp [genKey]
  rw [Sync.splitKey, hkey, List.splitOn_append_cons_self_of_not_mem hname, List.splitOn_eq_singleton hnsp]
  simp

/-- a target whose key decodes as it was encoded resolves to its cargo -/
theorem upstreamOf_targetKey {name nsp : String} {t : UpstreamTarget} (hkey : t.key = targetKey .cargo name nsp)
    (hparse : Nginx.parseUpstreamTarget (targetKey .cargo name nsp) = .ok (name, nsp, "c"))
    (client : Nginx.NanocldClient) : Nginx.upstreamOf client t = cargoUpstream client name nsp t.port := by
  rw [Nginx.upstreamOf, hkey, hparse]
  rfl

/-- what is listed for a cargo has a target with its key -/
theorem target_of_listed {ι φ : Type} {ip : IpText ι} {float : Codec φ} {externals : Externals} {name nsp : String}
    {resources listed : List ResourceDb} (h : listByCargo externals name (some nsp) resources = .ok listed)
    {r : ResourceDb} (hr : r ∈ listed) {rule : ResourceProxyRule ι φ}
    (hrule : Lib.Json.Same ((resourceProxyRule ip float).encode rule) r.data) :
    ∃ e ∈ rule.rules, ∃ t ∈ e.targets, t.key = targetKey .cargo name nsp := by
  have hkey : name ++ "." ++ nsp ++ ".c" = targetKey .cargo name nsp := by
    simp [targetKey, kindLetter, String.append_assoc]
  obtain ⟨-, rfl⟩ := (listByCargo_eq_ok externals name (some nsp) resources listed).1 h
  rw [Option.getD_some, hkey] at hr
  exact (targets_iff ip float hrule (targetKey .cargo name nsp)).1
    ((List.mem_append.1 hr).imp contains_of_found contains_of_found)

/-- **Keys decode to what was encoded** exactly if the name of the namespace has no dot. -/
theorem key_decoded_iff {kind : ObjectKind} {name : String} (hname : AcceptedName E kind name) (nsp : String) :
    Decoded kind name nsp ↔ '.' ∉ nsp.toList := by
  constructor
  · intro h
    have hsplit := h.sync
    unfold Sync.splitKey at hsplit
    split at hsplit
    · next x y heq =>
      have hy : String.ofList y = nsp := (Prod.mk.inj (Option.some.inj hsplit)).2
      have hdot : '.' ∉ y := notMem_of_mem_splitOn (heq ▸ List.mem_cons_of_mem _ List.mem_cons_self)
      rwa [← hy, String.toList_ofList]
    · cases hsplit
  · intro hnsp
    have hparse := parse_targetKey kind hname.dotless hnsp
    refine ⟨hparse, splitKey_genKey hname.dotless hnsp, ?_⟩
    rintro rfl ι φ ip float externals resources listed h r hr rule hrule
    exact ⟨target_of_listed h hr hrule, fun e _ t _ hkey client => upstreamOf_targetKey hkey hparse client⟩

theorem key_decoded_web : Decoded .cargo "web" "global" :=
  have hname : AcceptedName Objects.Env.plain .cargo "web" := rfl
  (key_decoded_iff Objects.Env.plain hname "global").2 (by decide)

/-- a namespace with a dot in its name is created, and the target of a cargo in it is that of a cargo in another one -/
theorem rule_of_other_cargo :
    (createNamespaceObj Objects.Env.plain "a.c" globalWorld).1 = .ok () ∧
      AcceptedName Objects.Env.plain .cargo "web" ∧ ¬ Decoded .cargo "web" "a.c" ∧
      Nginx.parseUpstreamTarget (targetKey .cargo "web" "a.c") = .ok ("web", "a", "c") := by
  have hparse : Nginx.parseUpstreamTarget (targetKey .cargo "web" "a.c") = .ok ("web", "a", "c") := by rfl
  refine ⟨namespace_accepted (by decide) rfl rfl, by rfl, fun h => ?_, hparse⟩
  have htarget := h.target
  rw [hparse] at htarget
  exact absurd htarget (by decide)

end Nanocl.Proxy
