/-
The vpnkit bridge (`ncvpnkit`): it exposes the ports of proxy rules on the host of a virtual machine.

The bridge keeps no state. On the creation and on the update of a resource it exposes the ports that the resource has now; on
its destruction it takes away those that the event says it had. vpnkit keeps one forwarding a port, whoever asked for it:
exposing it again and taking away what is not there are errors, which the bridge logs.

- `onEvent`: the handler, over the resources of the daemon and the forwardings of vpnkit.
- `Exact`: the forwardings are the ports that the resources want, and the default ones.
- `exposed_iff`: in a run they are so after every event exactly if no update drops a port that nothing else wants and nothing
  that is destroyed shares a port.
- `update_keeps_port`: an update that changes a port leaves the old one exposed.
-/
import Nanocl.Lib.Transition
import Nanocl.Proxy.RuleFormat
import Nanocl.System.Event

namespace Nanocl.Proxy.Vpnkit

open Lib

variable {ι φ : Type} (ip : IpText ι) (float : Codec φ)

/-! ## vpnkit -/

inductive VpnKitProtocol where
  | tcp
  | udp
  | unix
  deriving DecidableEq

/-- a forwarding -/
structure VpnKitPort where
  proto : Option VpnKitProtocol := none
  outIp : Option String := none
  outPort : Option UInt32 := none
  outPath : Option String := none
  inIp : Option String := none
  inPort : Option UInt32 := none
  inPath : Option String := none
  deriving DecidableEq

/-- `VpnKitRc::expose_port` and `expose_pipe_path`; a port that is exposed is refused -/
def exposePort (port : VpnKitPort) (exposed : List VpnKitPort) : Except String Unit × List VpnKitPort :=
  if port ∈ exposed then (.error "port is already exposed", exposed) else (.ok (), exposed ++ [port])

/-- `VpnKitRc::unexpose_port` and `unexpose_pipe_path` -/
def unexposePort (port : VpnKitPort) (exposed : List VpnKitPort) : Except String Unit × List VpnKitPort :=
  if port ∈ exposed then (.ok (), exposed.filter (· ≠ port)) else (.error "port is not exposed", exposed)

/-- errors are logged -/
def applyRule (port : VpnKitPort) (exposed : List VpnKitPort) : List VpnKitPort := (exposePort port exposed).2

def removeRule (port : VpnKitPort) (exposed : List VpnKitPort) : List VpnKitPort := (unexposePort port exposed).2

@[simp] theorem mem_applyRule {p port : VpnKitPort} {exposed : List VpnKitPort} :
    p ∈ applyRule port exposed ↔ p ∈ exposed ∨ p = port := by
  unfold applyRule exposePort
  split
  · next h => exact ⟨.inl, fun hp => hp.elim id fun hp => hp ▸ h⟩
  · simp

@[simp] theorem mem_removeRule {p port : VpnKitPort} {exposed : List VpnKitPort} :
    p ∈ removeRule port exposed ↔ p ∈ exposed ∧ p ≠ port := by
  unfold removeRule unexposePort
  split
  · simp
  · next h => exact ⟨fun hp => ⟨hp, fun heq => h (heq ▸ hp)⟩, And.left⟩

/-! ## Resources and events -/

structure Resource where
  key : String
  kind : String
  version : String
  data : Lib.Json
  metadata : Option Lib.Json

structure EventActor where
  key : Option String
  kind : EventActorKind
  attributes : Option Lib.Json

structure Event where
  action : String
  actor : Option EventActor

/-- `From<Resource> for EventActor` -/
def Resource.actor (r : Resource) : EventActor where
  key := some r.key
  kind := .resource
  attributes := some (.obj [("Kind", .str r.kind), ("Version", .str r.version), ("Metadata", r.metadata.getD .null),
    ("Spec", r.data)])

/-- `serde_json::Value::get` of a name -/
def get (name : String) : Lib.Json → Option Lib.Json
  | .obj fields => fields.lookup name
  | _ => none

/-! ## The handler -/

/-- the port of a stream rule on the host, from every address to the loopback of the machine -/
def vpnkitPort (protocol : ProxyStreamProtocol) (port : UInt16) : VpnKitPort where
  proto := match protocol with
    | .tcp => some .tcp
    | .udp => some .udp
  outIp := some "0.0.0.0"
  outPort := some port.toUInt32
  inIp := some "127.0.0.1"
  inPort := some port.toUInt32

def ruleStreamToVpnkitPort (rule : ProxyRuleStream ι) : VpnKitPort := vpnkitPort rule.protocol rule.port

/-- the stream rules on all or on public networks, in turn -/
def forStreams (f : VpnKitPort → List VpnKitPort → List VpnKitPort) (rules : List (ProxyRule ι φ))
    (exposed : List VpnKitPort) : List VpnKitPort :=
  rules.foldl (fun exposed rule =>
    match rule with
    | .stream stream =>
      match stream.network with
      | .all | .publicOnly => f (ruleStreamToVpnkitPort stream) exposed
      | _ => exposed
    | .http _ => exposed) exposed

def resourceToProxyRule (resource : Resource) : Option (ResourceProxyRule ι φ) :=
  (resourceProxyRule ip float).decode resource.data

/-- `on_event`: what vpnkit exposes afterwards, and the error that is logged -/
def onEvent (event : Event) (inspectResource : String → Option Resource) (exposed : List VpnKitPort) :
    Except String Unit × List VpnKitPort :=
  match event.actor with
  | none => (.ok (), exposed)
  | some actor =>
    if actor.kind ≠ .resource then (.ok (), exposed)
    else match NativeEventAction.fromStr event.action with
      | .create | .update =>
        match inspectResource (actor.key.getD "") with
        | none => (.error "resource not found", exposed)
        | some resource =>
          match resourceToProxyRule ip float resource with
          | none => (.error "Unable to deserialize proxy rule", exposed)
          | some rule => (.ok (), forStreams applyRule rule.rules exposed)
      | .destroy =>
        match get "Spec" (actor.attributes.getD .null) with
        | none => (.error "Resource spec: attribute not found", exposed)
        | some spec =>
          match (resourceProxyRule ip float).decode spec with
          | none => (.error "ncproxy.io/rule", exposed)
          | some rule => (.ok (), forStreams removeRule rule.rules exposed)
      | _ => (.ok (), exposed)

/-- what `main` exposes when it has subscribed: the ports of the proxy and the socket of the daemon -/
def proxyDefault : List VpnKitPort := [vpnkitPort .tcp 80, vpnkitPort .tcp 443]

def nanocldUnixDefault (userHome : String) : VpnKitPort where
  proto := some .unix
  outPath := some (userHome ++ "/.nanocl/run/nanocl.sock")
  inPath := some "/run/guest-services/nanocl/nanocl.sock"

/-! ## Runs -/

/-- the resources of the daemon, by their keys, and what vpnkit exposes -/
structure State where
  resources : String → Option Resource
  exposed : List VpnKitPort

/-- a bridge that has just subscribed, to a daemon without resources -/
def subscribed (userHome : String) : State where
  resources _ := none
  exposed := applyRule (nanocldUnixDefault userHome) (proxyDefault.foldl (fun exposed port => applyRule port exposed) [])

/-- what happens to a resource, after which the daemon sends its event -/
inductive Op where
  | create (resource : Resource)
  | update (resource : Resource)
  | destroy (key : String)

/-- the daemon changes its resource and the bridge handles the event; what the daemon refuses has none -/
def step (s : State) : Op → State
  | .create r =>
    match s.resources r.key with
    | some _ => s
    | none =>
      let resources := Function.update s.resources r.key (some r)
      ⟨resources, (onEvent ip float ⟨"create", some r.actor⟩ resources s.exposed).2⟩
  | .update r =>
    match s.resources r.key with
    | none => s
    | some _ =>
      let resources := Function.update s.resources r.key (some r)
      ⟨resources, (onEvent ip float ⟨"update", some r.actor⟩ resources s.exposed).2⟩
  | .destroy key =>
    match s.resources key with
    | none => s
    | some r =>
      let resources := Function.update s.resources key none
      ⟨resources, (onEvent ip float ⟨"destroy", some r.actor⟩ resources s.exposed).2⟩

/-! ## Property -/

/-- the ports that a resource wants: those of its stream rules on all or on public networks -/
def Wants (r : Resource) (protocol : ProxyStreamProtocol) (port : UInt16) : Prop :=
  ∃ rule : ResourceProxyRule ι φ, resourceToProxyRule ip float r = some rule ∧
    ∃ stream, .stream stream ∈ rule.rules ∧ (stream.network = .all ∨ stream.network = .publicOnly) ∧
      stream.protocol = protocol ∧ stream.port = port

def Default (protocol : ProxyStreamProtocol) (port : UInt16) : Prop := protocol = .tcp ∧ (port = 80 ∨ port = 443)

/-- vpnkit exposes exactly the ports that the resources want, the default ones and the socket of the daemon -/
structure Exact (userHome : String) (s : State) : Prop where
  ports : ∀ protocol port, vpnkitPort protocol port ∈ s.exposed ↔
    (∃ key r, s.resources key = some r ∧ Wants ip float r protocol port) ∨ Default protocol port
  others : ∀ p ∈ s.exposed, p = nanocldUnixDefault userHome ∨ ∃ protocol port, p = vpnkitPort protocol port
  daemon : nanocldUnixDefault userHome ∈ s.exposed

/-- another resource wants the port as well, or it is a default one -/
def Shared (s : State) (key : String) (protocol : ProxyStreamProtocol) (port : UInt16) : Prop :=
  (∃ other r, other ≠ key ∧ s.resources other = some r ∧ Wants ip float r protocol port) ∨ Default protocol port

/-- when an event is handled as it has to be -/
def Fits (s : State) : Op → Prop
  | .create _ => True
  | .update r => ∀ old, s.resources r.key = some old → ∀ protocol port, Wants ip float old protocol port →
      Wants ip float r protocol port ∨ Shared ip float s r.key protocol port
  | .destroy key => ∀ r, s.resources key = some r → ∀ protocol port, Wants ip float r protocol port →
      ¬ Shared ip float s key protocol port

/-! ## Proof -/

theorem vpnkitPort_injective {protocol protocol' : ProxyStreamProtocol} {port port' : UInt16}
    (h : vpnkitPort protocol port = vpnkitPort protocol' port') : protocol = protocol' ∧ port = port' := by
  unfold vpnkitPort at h
  have hport := Option.some.inj (VpnKitPort.mk.inj h).2.2.1
  refine ⟨?_, by simpa [← UInt16.toNat_inj, ← UInt32.toNat_inj] using hport⟩
  have hproto := (VpnKitPort.mk.inj h).1
  cases protocol <;> cases protocol' <;> first | rfl | cases hproto

theorem unix_ne_vpnkitPort (userHome : String) (protocol : ProxyStreamProtocol) (port : UInt16) :
    nanocldUnixDefault userHome ≠ vpnkitPort protocol port := by
  intro h
  have := (VpnKitPort.mk.inj h).2.1
  cases this

/-- the ports of a list of rules -/
def PortOf (rules : List (ProxyRule ι φ)) (p : VpnKitPort) : Prop :=
  ∃ stream, .stream stream ∈ rules ∧ (stream.network = .all ∨ stream.network = .publicOnly) ∧
    p = ruleStreamToVpnkitPort stream

theorem portOf_cons (rule : ProxyRule ι φ) (rules : List (ProxyRule ι φ)) (p : VpnKitPort) :
    PortOf (rule :: rules) p ↔ PortOf [rule] p ∨ PortOf rules p := by
  unfold PortOf
  simp only [List.mem_cons, List.not_mem_nil, or_false, or_and_right, exists_or]

/-- **What the loop exposes**: what was exposed, and the ports of the rules. -/
theorem mem_forStreams_apply {rules : List (ProxyRule ι φ)} {exposed : List VpnKitPort} {p : VpnKitPort} :
    p ∈ forStreams applyRule rules exposed ↔ p ∈ exposed ∨ PortOf rules p := by
  induction rules generalizing exposed with
  | nil => simp [forStreams, PortOf]
  | cons rule rules ih =>
    have hone : p ∈ forStreams applyRule [rule] exposed ↔ p ∈ exposed ∨ PortOf [rule] p := by
      cases rule with
      | http r => simp [forStreams, PortOf]
      | stream r => cases hn : r.network <;> simp [forStreams, PortOf, hn]
    have hcons : forStreams applyRule (rule :: rules) exposed =
        forStreams applyRule rules (forStreams applyRule [rule] exposed) := rfl
    rw [hcons, ih, hone, portOf_cons rule rules, or_assoc]

/-- **What the loop takes away**: the ports of the rules. -/
theorem mem_forStreams_remove {rules : List (ProxyRule ι φ)} {exposed : List VpnKitPort} {p : VpnKitPort} :
    p ∈ forStreams removeRule rules exposed ↔ p ∈ exposed ∧ ¬ PortOf rules p := by
  induction rules generalizing exposed with
  | nil => simp [forStreams, PortOf]
  | cons rule rules ih =>
    have hone : p ∈ forStreams removeRule [rule] exposed ↔ p ∈ exposed ∧ ¬ PortOf [rule] p := by
      cases rule with
      | http r => simp [forStreams, PortOf]
      | stream r => cases hn : r.network <;> simp [forStreams, PortOf, hn]
    have hcons : forStreams removeRule (rule :: rules) exposed =
        forStreams removeRule rules (forStreams removeRule [rule] exposed) := rfl
    rw [hcons, ih, hone, portOf_cons rule rules, not_or, and_assoc]

/-- the ports that a resource wants, as forwardings -/
def Forwards (r : Resource) (p : VpnKitPort) : Prop := ∃ protocol port, p = vpnkitPort protocol port ∧ Wants ip float r protocol port

theorem forwards_vpnkitPort {r : Resource} {protocol : ProxyStreamProtocol} {port : UInt16} :
    Forwards ip float r (vpnkitPort protocol port) ↔ Wants ip float r protocol port := by
  constructor
  · rintro ⟨protocol', port', heq, h⟩
    obtain ⟨rfl, rfl⟩ := vpnkitPort_injective heq
    exact h
  · intro h
    exact ⟨protocol, port, rfl, h⟩

/-- nothing is wanted by a resource that is not a rule -/
theorem forwards_iff {r : Resource} {p : VpnKitPort} : Forwards ip float r p ↔
    ∃ rule : ResourceProxyRule ι φ, resourceToProxyRule ip float r = some rule ∧ PortOf rule.rules p := by
  constructor
  · rintro ⟨protocol, port, rfl, rule, hrule, stream, hmem, hnet, rfl, rfl⟩
    exact ⟨rule, hrule, stream, hmem, hnet, rfl⟩
  · rintro ⟨rule, hrule, stream, hmem, hnet, rfl⟩
    exact ⟨stream.protocol, stream.port, rfl, rule, hrule, stream, hmem, hnet, rfl, rfl⟩

/-- **A creation or an update** exposes what the resource wants. -/
theorem mem_onEvent_apply {action : String}
    (haction : NativeEventAction.fromStr action = .create ∨ NativeEventAction.fromStr action = .update) {r : Resource}
    {resources : String → Option Resource} (hr : resources r.key = some r) {exposed : List VpnKitPort} {p : VpnKitPort} :
    p ∈ (onEvent ip float ⟨action, some r.actor⟩ resources exposed).2 ↔ p ∈ exposed ∨ Forwards ip float r p := by
  have hevent : (onEvent ip float ⟨action, some r.actor⟩ resources exposed).2 =
      match resourceToProxyRule ip float r with
      | none => exposed
      | some rule => forStreams applyRule rule.rules exposed := by
    unfold onEvent
    simp only [Resource.actor, Option.getD_some, hr, ne_eq, not_true_eq_false, if_false]
    rcases haction with h | h <;> rw [h] <;> cases resourceToProxyRule ip float r <;> rfl
  rw [hevent, forwards_iff]
  cases resourceToProxyRule ip float r with
  | none => simp
  | some rule => simpa using mem_forStreams_apply

/-- **A destruction** takes away what the resource wanted. -/
theorem mem_onEvent_destroy {r : Resource} {resources : String → Option Resource} {exposed : List VpnKitPort}
    {p : VpnKitPort} :
    p ∈ (onEvent ip float ⟨"destroy", some r.actor⟩ resources exposed).2 ↔ p ∈ exposed ∧ ¬ Forwards ip float r p := by
  have hevent : (onEvent ip float ⟨"destroy", some r.actor⟩ resources exposed).2 =
      match resourceToProxyRule ip float r with
      | none => exposed
      | some rule => forStreams removeRule rule.rules exposed := by
    have hspec : get "Spec" (r.actor.attributes.getD .null) = some r.data := rfl
    have haction : NativeEventAction.fromStr "destroy" = .destroy := rfl
    have hkind : r.actor.kind = .resource := rfl
    unfold onEvent
    simp only [hspec, haction, hkind, ne_eq, not_true_eq_false, if_false]
    unfold resourceToProxyRule
    cases (resourceProxyRule ip float).decode r.data <;> rfl
  rw [hevent, forwards_iff]
  cases resourceToProxyRule ip float r with
  | none => simp
  | some rule => simpa using mem_forStreams_remove

/-! ### One step -/

/-- a port that is always exposed -/
def Kept (userHome : String) (p : VpnKitPort) : Prop :=
  (∃ protocol port, p = vpnkitPort protocol port ∧ Default protocol port) ∨ p = nanocldUnixDefault userHome

/-- a port that a resource other than `key` wants -/
def OfOthers (s : State) (key : String) (p : VpnKitPort) : Prop :=
  ∃ k r, k ≠ key ∧ s.resources k = some r ∧ Forwards ip float r p

section Step

variable {ip float} {userHome : String} {s : State} {r : Resource} {key : String}

theorem exact_iff (s : State) : Exact ip float userHome s ↔
    ∀ p, p ∈ s.exposed ↔ (∃ key r, s.resources key = some r ∧ Forwards ip float r p) ∨ Kept userHome p := by
  constructor
  · intro h p
    constructor
    · intro hp
      obtain rfl | ⟨protocol, port, rfl⟩ := h.others p hp
      · exact .inr (.inr rfl)
      · obtain ⟨key, r, hr, hwant⟩ | hdef := (h.ports protocol port).1 hp
        · exact .inl ⟨key, r, hr, protocol, port, rfl, hwant⟩
        · exact .inr (.inl ⟨protocol, port, rfl, hdef⟩)
    · rintro (⟨key, r, hr, protocol, port, rfl, hwant⟩ | ⟨protocol, port, rfl, hdef⟩ | rfl)
      · exact (h.ports protocol port).2 (.inl ⟨key, r, hr, hwant⟩)
      · exact (h.ports protocol port).2 (.inr hdef)
      · exact h.daemon
  · intro h
    refine ⟨fun protocol port => ?_, fun p hp => ?_, (h _).2 (.inr (.inr rfl))⟩
    · rw [h]
      constructor
      · rintro (⟨key, r, hr, hwant⟩ | ⟨protocol', port', heq, hdef⟩ | heq)
        · exact .inl ⟨key, r, hr, (forwards_vpnkitPort ip float).1 hwant⟩
        · obtain ⟨rfl, rfl⟩ := vpnkitPort_injective heq
          exact .inr hdef
        · exact absurd heq.symm (unix_ne_vpnkitPort userHome protocol port)
      · rintro (⟨key, r, hr, hwant⟩ | hdef)
        · exact .inl ⟨key, r, hr, protocol, port, rfl, hwant⟩
        · exact .inr (.inl ⟨protocol, port, rfl, hdef⟩)
    · obtain ⟨_, _, _, protocol, port, rfl, -⟩ | ⟨protocol, port, rfl, -⟩ | rfl := (h p).1 hp
      · exact .inr ⟨protocol, port, rfl⟩
      · exact .inr ⟨protocol, port, rfl⟩
      · exact .inl rfl

variable (ip float s key) in
/-- the resources after a change: the changed one, and the others -/
theorem wanted_update_iff (o : Option Resource) (p : VpnKitPort) :
    (∃ k r, Function.update s.resources key o k = some r ∧ Forwards ip float r p) ↔
      (∃ r, o = some r ∧ Forwards ip float r p) ∨ OfOthers ip float s key p := by
  constructor
  · rintro ⟨k, r, hr, hp⟩
    by_cases hk : k = key
    · subst hk
      rw [Function.update_self] at hr
      exact .inl ⟨r, hr, hp⟩
    · rw [Function.update_of_ne hk] at hr
      exact .inr ⟨k, r, hk, hr, hp⟩
  · rintro (⟨r, hr, hp⟩ | ⟨k, r, hk, hr, hp⟩)
    · exact ⟨key, r, by rw [Function.update_self, hr], hp⟩
    · exact ⟨k, r, by rw [Function.update_of_ne hk, hr], hp⟩

/-- the resources before a change -/
theorem wanted_iff (key : String) {p : VpnKitPort} :
    (∃ k r, s.resources k = some r ∧ Forwards ip float r p) ↔
      (∃ r, s.resources key = some r ∧ Forwards ip float r p) ∨ OfOthers ip float s key p := by
  have h := wanted_update_iff ip float s key (s.resources key) p
  rwa [Function.update_eq_self] at h

variable (userHome) in
/-- a port is shared if it stays without the resource -/
theorem shared_iff {protocol : ProxyStreamProtocol} {port : UInt16} : Shared ip float s key protocol port ↔
    OfOthers ip float s key (vpnkitPort protocol port) ∨ Kept userHome (vpnkitPort protocol port) := by
  constructor
  · rintro (⟨k, r, hk, hr, hwant⟩ | hdef)
    · exact .inl ⟨k, r, hk, hr, protocol, port, rfl, hwant⟩
    · exact .inr (.inl ⟨protocol, port, rfl, hdef⟩)
  · rintro (⟨k, r, hk, hr, hwant⟩ | ⟨protocol', port', heq, hdef⟩ | heq)
    · exact .inl ⟨k, r, hk, hr, (forwards_vpnkitPort ip float).1 hwant⟩
    · obtain ⟨rfl, rfl⟩ := vpnkitPort_injective heq
      exact .inr hdef
    · exact absurd heq.symm (unix_ne_vpnkitPort userHome protocol port)

theorem exact_create (h : Exact ip float userHome s) (hr : s.resources r.key = none) :
    Exact ip float userHome (step ip float s (.create r)) := by
  have hstep : step ip float s (.create r) = ⟨Function.update s.resources r.key (some r),
      (onEvent ip float ⟨"create", some r.actor⟩ (Function.update s.resources r.key (some r)) s.exposed).2⟩ := by
    simp only [step, hr]
  rw [exact_iff] at h
  rw [hstep]
  refine (exact_iff _).2 fun p => ?_
  have hold : ¬ ∃ r', s.resources r.key = some r' ∧ Forwards ip float r' p := by
    simp [hr]
  calc p ∈ _ ↔ p ∈ s.exposed ∨ Forwards ip float r p := mem_onEvent_apply ip float (.inl rfl) (Function.update_self ..)
    _ ↔ (Forwards ip float r p ∨ OfOthers ip float s r.key p) ∨ Kept userHome p := by
      rw [h p, wanted_iff r.key, or_iff_right hold]
      rw [or_comm, or_assoc]
    _ ↔ _ := by
      rw [wanted_update_iff]
      simp

theorem exact_update (h : Exact ip float userHome s) {old : Resource} (hr : s.resources r.key = some old) :
    Exact ip float userHome (step ip float s (.update r)) ↔
      ∀ p, Forwards ip float old p → Forwards ip float r p ∨ OfOthers ip float s r.key p ∨ Kept userHome p := by
  have hstep : step ip float s (.update r) = ⟨Function.update s.resources r.key (some r),
      (onEvent ip float ⟨"update", some r.actor⟩ (Function.update s.resources r.key (some r)) s.exposed).2⟩ := by
    simp only [step, hr]
  rw [exact_iff] at h
  rw [hstep, exact_iff]
  refine forall_congr' fun p => ?_
  have hmem : p ∈ (onEvent ip float ⟨"update", some r.actor⟩ (Function.update s.resources r.key (some r)) s.exposed).2 ↔
      p ∈ s.exposed ∨ Forwards ip float r p := mem_onEvent_apply ip float (.inr rfl) (Function.update_self ..)
  have hold : (∃ r', s.resources r.key = some r' ∧ Forwards ip float r' p) ↔ Forwards ip float old p := by
    simp [hr]
  have hnew : (∃ r', some r = some r' ∧ Forwards ip float r' p) ↔ Forwards ip float r p := by
    simp
  rw [hmem, h p, wanted_iff r.key, wanted_update_iff, hold, hnew]
  grind

theorem exact_destroy (h : Exact ip float userHome s) (hr : s.resources key = some r) :
    Exact ip float userHome (step ip float s (.destroy key)) ↔
      ∀ p, Forwards ip float r p → ¬ (OfOthers ip float s key p ∨ Kept userHome p) := by
  have hstep : step ip float s (.destroy key) = ⟨Function.update s.resources key none,
      (onEvent ip float ⟨"destroy", some r.actor⟩ (Function.update s.resources key none) s.exposed).2⟩ := by
    simp only [step, hr]
  rw [exact_iff] at h
  rw [hstep, exact_iff]
  refine forall_congr' fun p => ?_
  have hmem : p ∈ (onEvent ip float ⟨"destroy", some r.actor⟩ (Function.update s.resources key none) s.exposed).2 ↔
      p ∈ s.exposed ∧ ¬ Forwards ip float r p := mem_onEvent_destroy ip float
  have hold : (∃ r', s.resources key = some r' ∧ Forwards ip float r' p) ↔ Forwards ip float r p := by
    simp [hr]
  have hnew : ¬ ∃ r', (none : Option Resource) = some r' ∧ Forwards ip float r' p := by
    simp
  rw [hmem, h p, wanted_iff key, wanted_update_iff, hold]
  grind

/-- **One event is handled as it has to be exactly if it fits.** -/
theorem exact_step_iff (h : Exact ip float userHome s) (o : Op) :
    Exact ip float userHome (step ip float s o) ↔ Fits ip float s o := by
  cases o with
  | create r =>
    refine iff_of_true ?_ trivial
    cases hr : s.resources r.key with
    | none => exact exact_create h hr
    | some old =>
      have hstep : step ip float s (.create r) = s := by simp only [step, hr]
      rwa [hstep]
  | update r =>
    simp only [Fits]
    cases hr : s.resources r.key with
    | none =>
      have hstep : step ip float s (.update r) = s := by simp only [step, hr]
      exact iff_of_true (by rwa [hstep]) fun _ hnone => by cases hnone
    | some old =>
      rw [exact_update h hr]
      constructor
      · intro hall _ hold protocol port hwant
        cases hold
        rw [shared_iff userHome, ← forwards_vpnkitPort]
        exact hall _ ((forwards_vpnkitPort ip float).2 hwant)
      · rintro hall _ ⟨protocol, port, rfl, hwant⟩
        rw [forwards_vpnkitPort, ← shared_iff]
        exact hall old rfl protocol port hwant
  | destroy key =>
    simp only [Fits]
    cases hr : s.resources key with
    | none =>
      have hstep : step ip float s (.destroy key) = s := by simp only [step, hr]
      exact iff_of_true (by rwa [hstep]) fun _ hnone => by cases hnone
    | some r =>
      rw [exact_destroy h hr]
      constructor
      · intro hall _ hr protocol port hwant
        cases hr
        rw [shared_iff userHome]
        exact hall _ ((forwards_vpnkitPort ip float).2 hwant)
      · rintro hall _ ⟨protocol, port, rfl, hwant⟩
        rw [← shared_iff]
        exact hall r rfl protocol port hwant

end Step

/-- the bridge starts as it has to be -/
theorem exact_subscribed (userHome : String) : Exact ip float userHome (subscribed userHome) := by
  refine (exact_iff _).2 fun p => ?_
  simp only [subscribed, proxyDefault, List.foldl_cons, List.foldl_nil, mem_applyRule, List.not_mem_nil, false_or,
    reduceCtorEq, false_and, exists_false, Kept]
  refine or_congr ?_ Iff.rfl
  constructor
  · rintro (rfl | rfl)
    · exact ⟨.tcp, 80, rfl, rfl, .inl rfl⟩
    · exact ⟨.tcp, 443, rfl, rfl, .inr rfl⟩
  · rintro ⟨_, _, rfl, rfl, rfl | rfl⟩
    · exact .inl rfl
    · exact .inr rfl

/-- **The ports are exactly the wanted ones after every event of a run exactly if every event fits**: no update drops a port
that nothing else wants, and nothing that is destroyed has a port that something else wants or that is a default one. -/
theorem exposed_iff (userHome : String) (ops : List Op) :
    Along (step ip float) (fun s o => Exact ip float userHome (step ip float s o)) (subscribed userHome) ops ↔
      Along (step ip float) (Fits ip float) (subscribed userHome) ops :=
  along_inv_iff (I := Exact ip float userHome) (fun _ h => h) (fun _ o h hfits => (exact_step_iff h o).2 hfits)
    (fun _ o h hnext => (exact_step_iff h o).1 hnext) (exact_subscribed ip float userHome) ops

/-- addresses that are their texts -/
def plainIp : IpText String := ⟨id, some, IpText.some_id⟩

/-- a resource with one stream rule on all networks -/
def streamResource (key : String) (port : UInt16) : Resource where
  key
  kind := "ncproxy.io/rule"
  version := "v0.12"
  data := (resourceProxyRule plainIp Codec.u64).encode ⟨[.stream ⟨.all, .tcp, port, none, .uri ⟨"tcp://10.0.0.1:9000"⟩⟩]⟩
  metadata := none

theorem wants_streamResource {key : String} {port port' : UInt16} {protocol : ProxyStreamProtocol} :
    Wants plainIp Codec.u64 (streamResource key port) protocol port' ↔ protocol = .tcp ∧ port' = port := by
  unfold Wants resourceToProxyRule streamResource
  simp only [Codec.decode_encode_self, Option.some.injEq, exists_eq_left', List.mem_singleton, ProxyRule.stream.injEq,
    exists_eq_left, true_or, true_and]
  exact and_congr eq_comm eq_comm

/-- an update that changes a port leaves the old one exposed -/
theorem update_keeps_port :
    ¬ ∀ ops : List Op, Along (step plainIp Codec.u64) (fun s o => Exact plainIp Codec.u64 "/root" (step plainIp Codec.u64 s o))
      (subscribed "/root") ops := by
  intro h
  obtain ⟨hcreate, hupdate, -⟩ := h [.create (streamResource "db" 9000), .update (streamResource "db" 9001)]
  have hold : (step plainIp Codec.u64 (subscribed "/root") (.create (streamResource "db" 9000))).resources
      (streamResource "db" 9001).key = some (streamResource "db" 9000) := by
    simp [step, subscribed, streamResource]
  have hfits := (exact_step_iff hcreate _).1 hupdate _ hold .tcp 9000 (wants_streamResource.2 ⟨rfl, rfl⟩)
  obtain hwant | ⟨other, r, hne, hr, -⟩ | ⟨-, hdef⟩ := hfits
  · exact absurd (wants_streamResource.1 hwant).2 (by decide)
  · have hnone : (step plainIp Codec.u64 (subscribed "/root") (.create (streamResource "db" 9000))).resources other = none := by
      have : other ≠ "db" := hne
      simp [step, subscribed, streamResource, this]
    rw [hnone] at hr
    cases hr
  · exact absurd hdef (by decide)

end Nanocl.Proxy.Vpnkit
