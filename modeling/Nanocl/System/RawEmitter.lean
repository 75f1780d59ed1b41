/-
The emitter that hands the daemon's events to the clients that watch them (`models/raw_emitter.rs`). Its list of clients
is behind a mutex. A subscription and a check of the connections hold it from beginning to end; an emission holds it to
copy the list, sends to the clients of the copy without it, and takes it again to store the list it has rebuilt.

Here each of these is a step: `subscribe`, `check`, and for the emission number `n` the steps `lock`, `send n` (to the
next client of the copy) and `store n`. Beside them stand the receivers: `recv` takes an item, `close` drops the receiver.
A channel holds 100 items; `try_send` fails where it is full or closed.

- `Sound`: what every state of a run satisfies. Senders go to channels of the emitter, each at most once in a list, and
  what an emission has rebuilt is its copy as far as it has come.
- `run_emission`: an emission that nothing interrupts keeps each client as `RawEventSender.after` says.
-/
import Mathlib.Data.List.Nodup
import Nanocl.Lib.Transition
import Nanocl.System.Event

namespace Nanocl.Emitter

open Nanocl.Lib

/-! ## Events and conditions -/

/-- the fields of an event that a condition is about -/
structure Event extends Nanocl.Event where
  related : Option EventActor
deriving DecidableEq

/-- `EventCondition` -/
structure EventCondition where
  actorKey : Option String
  actorKind : Option EventActorKind
  relatedKey : Option String
  relatedKind : Option EventActorKind
  kind : List EventKind
  action : List NativeEventAction
deriving DecidableEq

/-- `EventCondition == Event` -/
def EventCondition.eq (c : EventCondition) (other : Event) : Bool :=
  match other.actor with
  | none => false
  | some actor =>
    match actor.key with
    | none => false
    | some key =>
      let action := NativeEventAction.fromStr other.action
      (c.actorKind.map (· == actor.kind)).getD false && (c.actorKey.map (· == key)).getD false &&
        c.kind.any (· == other.kind) && c.action.any (· == action)

/-- the actor of an event has the key and the kind, as far as they are given -/
def ActorAgrees (key : Option String) (kind : Option EventActorKind) (actor : Option EventActor) : Prop :=
  (∀ k ∈ key, ∃ a ∈ actor, a.key = some k) ∧ ∀ k ∈ kind, ∃ a ∈ actor, a.kind = k

instance (key : Option String) (kind : Option EventActorKind) (actor : Option EventActor) :
    Decidable (ActorAgrees key kind actor) := by unfold ActorAgrees; infer_instance

/-- every field that the condition specifies agrees with the event -/
structure EventCondition.Agrees (c : EventCondition) (e : Event) : Prop where
  actor : ActorAgrees c.actorKey c.actorKind e.actor
  related : ActorAgrees c.relatedKey c.relatedKind e.related
  kind : e.kind ∈ c.kind
  action : NativeEventAction.fromStr e.action ∈ c.action

instance (c : EventCondition) (e : Event) : Decidable (c.Agrees e) :=
  decidable_of_iff (ActorAgrees c.actorKey c.actorKind e.actor ∧ ActorAgrees c.relatedKey c.relatedKind e.related ∧
    e.kind ∈ c.kind ∧ NativeEventAction.fromStr e.action ∈ c.action)
    ⟨fun h => ⟨h.1, h.2.1, h.2.2.1, h.2.2.2⟩, fun h => ⟨h.actor, h.related, h.kind, h.action⟩⟩

/-! ## Model -/

/-- `RawEventSender`; `client` tells its channel -/
structure RawEventSender where
  client : ℕ
  conditions : Option (List EventCondition)
  met : ℕ
deriving DecidableEq

/-- what an emission keeps of a client: nothing once as many events as it has conditions have met one of them -/
def RawEventSender.after (client : RawEventSender) (e : Event) : Option RawEventSender :=
  let conditions := client.conditions.getD []
  if conditions.isEmpty then some client
  else
    let conditionMeet := if conditions.any (·.eq e) then client.met + 1 else client.met
    if conditionMeet ≠ conditions.length then some { client with met := conditionMeet } else none

/-- an event of an emission, or the empty message of a check -/
inductive Item where
  | event (n : ℕ)
  | empty
deriving DecidableEq

/-- the channel of a client, with what the client asked for and how many events had been emitted before -/
structure Channel where
  conditions : Option (List EventCondition)
  since : ℕ
  queue : List Item
  /-- what the receiver has taken -/
  taken : List Item
  isOpen : Bool

/-- an emission between its two locks -/
structure Emission where
  event : Event
  /-- the copy of the list -/
  clients : List RawEventSender
  todo : List RawEventSender
  newClients : List RawEventSender

structure State where
  clients : List RawEventSender
  channels : ℕ → Option Channel
  /-- how many clients have subscribed -/
  subscribed : ℕ
  /-- the emissions that have begun and not ended, by their number -/
  emissions : ℕ → Option Emission
  /-- the events of all emissions that have begun -/
  emitted : List Event

def State.init : State := ⟨[], fun _ => none, 0, fun _ => none, []⟩

def Channel.push (ch : Channel) (item : Item) : Channel := { ch with queue := ch.queue ++ [item] }

/-- the receiver takes an item -/
def Channel.recv (ch : Channel) : Channel :=
  match ch.queue, ch.isOpen with
  | item :: queue, true => { ch with queue := queue, taken := ch.taken ++ [item] }
  | _, _ => ch

/-- `try_send` goes through -/
def Channel.Takes (ch : Channel) : Prop := ch.isOpen = true ∧ ch.queue.length < 100

instance (ch : Channel) : Decidable ch.Takes := by unfold Channel.Takes; infer_instance

/-- `try_send` goes through at the channel of a client -/
def State.Takes (s : State) (k : ℕ) : Prop := ∃ ch ∈ s.channels k, ch.Takes

instance (s : State) (k : ℕ) : Decidable (s.Takes k) := by unfold State.Takes; infer_instance

/-- `try_send` -/
def State.trySend (s : State) (k : ℕ) (item : Item) : State :=
  if s.Takes k then { s with channels := Function.update s.channels k ((s.channels k).map (·.push item)) } else s

/-- `check_connection`: the clients that are alive, and the state after the messages to all of them -/
def checkClients : List RawEventSender → State → List RawEventSender × State
  | [], s => ([], s)
  | client :: clients, s =>
    let (alive, s') := checkClients clients (s.trySend client.client .empty)
    (if s.Takes client.client then client :: alive else alive, s')

inductive Op where
  | subscribe (conditions : Option (List EventCondition))
  | check
  | lock (e : Event)
  | send (n : ℕ)
  | store (n : ℕ)
  | recv (k : ℕ)
  | close (k : ℕ)

def step (s : State) : Op → State
  | .subscribe conditions =>
    { s with
      clients := s.clients ++ [⟨s.subscribed, conditions, 0⟩]
      channels := Function.update s.channels s.subscribed (some ⟨conditions, s.emitted.length, [], [], true⟩)
      subscribed := s.subscribed + 1 }
  | .check =>
    let (alive, s') := checkClients s.clients s
    { s' with clients := alive }
  | .lock e =>
    { s with
      emissions := Function.update s.emissions s.emitted.length (some ⟨e, s.clients, s.clients, []⟩)
      emitted := s.emitted ++ [e] }
  | .send n =>
    match s.emissions n with
    | none => s
    | some em =>
      match em.todo with
      | [] => s
      | client :: todo =>
        { s.trySend client.client (.event n) with
          emissions := Function.update s.emissions n (some { em with
            todo := todo, newClients := em.newClients ++ (client.after em.event).toList }) }
  | .store n =>
    match s.emissions n with
    | none => s
    | some em =>
      match em.todo with
      | _ :: _ => s
      | [] => { s with clients := em.newClients, emissions := Function.update s.emissions n none }
  | .recv k => { s with channels := Function.update s.channels k ((s.channels k).map (·.recv)) }
  | .close k => { s with channels := Function.update s.channels k ((s.channels k).map ({ · with isOpen := false })) }

theorem step_send {s : State} {n : ℕ} {em : Emission} {client : RawEventSender} {todo : List RawEventSender}
    (hem : s.emissions n = some em) (htodo : em.todo = client :: todo) :
    step s (.send n) = { s.trySend client.client (.event n) with
      emissions := Function.update s.emissions n (some { em with
        todo := todo, newClients := em.newClients ++ (client.after em.event).toList }) } := by
  simp only [step, hem, htodo]

theorem step_store {s : State} {n : ℕ} {em : Emission} (hem : s.emissions n = some em) (htodo : em.todo = []) :
    step s (.store n) = { s with clients := em.newClients, emissions := Function.update s.emissions n none } := by
  simp only [step, hem, htodo]

/-- an emission sends to the next client of its copy, or has none left -/
theorem send_cases (s : State) (n : ℕ) :
    (∃ em client todo, s.emissions n = some em ∧ em.todo = client :: todo ∧
      step s (.send n) = { s.trySend client.client (.event n) with
        emissions := Function.update s.emissions n (some { em with
          todo := todo, newClients := em.newClients ++ (client.after em.event).toList }) }) ∨
    ((∀ em, s.emissions n = some em → em.todo = []) ∧ step s (.send n) = s) := by
  cases hem : s.emissions n with
  | none => exact .inr ⟨fun _ h => absurd h (Option.some_ne_none _).symm, by simp only [step, hem]⟩
  | some em =>
    cases htodo : em.todo with
    | nil =>
      refine .inr ⟨fun em' h => ?_, by simp only [step, hem, htodo]⟩
      rw [← Option.some.inj h, htodo]
    | cons client todo => exact .inl ⟨em, client, todo, rfl, htodo, step_send hem htodo⟩

/-- an emission stores the list it has rebuilt, once it has sent to each client -/
theorem store_cases (s : State) (n : ℕ) :
    (∃ em, s.emissions n = some em ∧ em.todo = [] ∧
      step s (.store n) = { s with clients := em.newClients, emissions := Function.update s.emissions n none }) ∨
    ((∀ em, s.emissions n = some em → em.todo ≠ []) ∧ step s (.store n) = s) := by
  cases hem : s.emissions n with
  | none => exact .inr ⟨fun _ h => absurd h (Option.some_ne_none _).symm, by simp only [step, hem]⟩
  | some em =>
    cases htodo : em.todo with
    | nil => exact .inl ⟨em, rfl, htodo, step_store hem htodo⟩
    | cons client todo =>
      refine .inr ⟨fun em' h => ?_, by simp only [step, hem, htodo]⟩
      rw [← Option.some.inj h, htodo]
      exact List.cons_ne_nil _ _

/-! ## Channels -/

/-- the emissions whose events have been sent to a channel, in the order they were sent -/
def Channel.events (ch : Channel) : List ℕ := (ch.taken ++ ch.queue).filterMap fun
  | .event n => some n
  | .empty => none

@[simp] theorem Channel.events_push (ch : Channel) (n : ℕ) : (ch.push (.event n)).events = ch.events ++ [n] := by
  simp [events, push, ← List.append_assoc, List.filterMap_append]

@[simp] theorem Channel.events_push_empty (ch : Channel) : (ch.push .empty).events = ch.events := by
  simp [events, push, ← List.append_assoc, List.filterMap_append]

@[simp] theorem Channel.events_recv (ch : Channel) : ch.recv.events = ch.events := by
  unfold recv
  split
  · rename_i item queue hq _
    simp [events, hq]
  · rfl

theorem trySend_channels (s : State) (k j : ℕ) (item : Item) : (s.trySend k item).channels j =
    if j = k ∧ s.Takes k then (s.channels j).map (·.push item) else s.channels j := by
  unfold State.trySend
  by_cases h : s.Takes k
  · by_cases hj : j = k
    · simp [h, hj]
    · simp [h, hj]
  · simp [h]

@[simp] theorem trySend_clients (s : State) (k : ℕ) (item : Item) : (s.trySend k item).clients = s.clients := by
  unfold State.trySend
  split <;> rfl

@[simp] theorem trySend_subscribed (s : State) (k : ℕ) (item : Item) : (s.trySend k item).subscribed = s.subscribed := by
  unfold State.trySend
  split <;> rfl

@[simp] theorem trySend_emissions (s : State) (k : ℕ) (item : Item) : (s.trySend k item).emissions = s.emissions := by
  unfold State.trySend
  split <;> rfl

@[simp] theorem trySend_emitted (s : State) (k : ℕ) (item : Item) : (s.trySend k item).emitted = s.emitted := by
  unfold State.trySend
  split <;> rfl

theorem takes_trySend_of_ne {s : State} {k j : ℕ} (item : Item) (h : j ≠ k) : (s.trySend k item).Takes j ↔ s.Takes j := by
  simp only [State.Takes, trySend_channels, h, false_and, if_false]

/-- a check keeps the clients whose channels take its message, and sends it to them -/
theorem checkClients_spec {l : List RawEventSender} (hl : (l.map (·.client)).Nodup) (s : State) :
    (checkClients l s).1 = l.filter (fun c => s.Takes c.client) ∧
      checkClients l s = ((checkClients l s).1, { s with channels := (checkClients l s).2.channels }) ∧
      ∀ j, (checkClients l s).2.channels j =
        if j ∈ l.map (·.client) ∧ s.Takes j then (s.channels j).map (·.push .empty) else s.channels j := by
  induction l generalizing s with
  | nil => exact ⟨rfl, rfl, fun j => by simp [checkClients]⟩
  | cons c l ih =>
    rw [List.map_cons, List.nodup_cons] at hl
    obtain ⟨halive, hframe, hchannels⟩ := ih hl.2 (s.trySend c.client .empty)
    have hsame : ∀ d ∈ l, (s.trySend c.client .empty).Takes d.client ↔ s.Takes d.client := fun d hd =>
      takes_trySend_of_ne _ fun heq => hl.1 (heq ▸ List.mem_map_of_mem hd)
    have hfilter : l.filter (fun d => (s.trySend c.client .empty).Takes d.client) = l.filter fun d => s.Takes d.client :=
      List.filter_congr fun d hd => decide_eq_decide.2 (hsame d hd)
    refine ⟨?_, ?_, fun j => ?_⟩
    · simp only [checkClients, halive, hfilter, List.filter_cons, decide_eq_true_eq]
    · rw [checkClients, hframe]
      simp
    · simp only [checkClients, hchannels, trySend_channels, List.map_cons, List.mem_cons]
      by_cases hj : j = c.client
      · subst hj
        simp [hl.1]
      · simp [hj, takes_trySend_of_ne _ hj]

/-! ## What every state of a run satisfies -/

/-- a list of senders: each to a channel of its own, with its conditions -/
structure State.Valid (s : State) (l : List RawEventSender) : Prop where
  nodup : (l.map (·.client)).Nodup
  known : ∀ c ∈ l, ∃ ch, s.channels c.client = some ch ∧ ch.conditions = c.conditions

/-- an emission has rebuilt its copy as far as it has come, and its event is not yet at the clients to come -/
structure State.EmissionSound (s : State) (n : ℕ) (em : Emission) : Prop where
  event : s.emitted[n]? = some em.event
  clients : s.Valid em.clients
  todo : em.todo <:+ em.clients
  kept : em.newClients ++ em.todo.filterMap (·.after em.event) = em.clients.filterMap (·.after em.event)
  unsent : ∀ c ∈ em.todo, ∀ ch, s.channels c.client = some ch → n ∉ ch.events

structure Sound (s : State) : Prop where
  fresh : ∀ k, s.subscribed ≤ k → s.channels k = none
  clients : s.Valid s.clients
  since : ∀ k ch, s.channels k = some ch → ch.since ≤ s.emitted.length
  sent : ∀ k ch, s.channels k = some ch → ∀ n ∈ ch.events, n < s.emitted.length
  emissions : ∀ n em, s.emissions n = some em → s.EmissionSound n em

/-- the event that a step sends to a client -/
def sentTo (s : State) (k : ℕ) : Op → List ℕ
  | .send n =>
    match s.emissions n with
    | none => []
    | some em => if em.todo.head?.map (·.client) = some k ∧ s.Takes k then [n] else []
  | _ => []

/-- **What a step does to a channel** -/
theorem channel_step {s : State} (h : Sound s) (op : Op) {k : ℕ} {ch : Channel} (hk : s.channels k = some ch) :
    ∃ ch', (step s op).channels k = some ch' ∧ ch'.conditions = ch.conditions ∧ ch'.since = ch.since ∧
      (ch'.isOpen = true → ch.isOpen = true) ∧ (op ≠ .close k → ch'.isOpen = ch.isOpen) ∧
      ch'.events = ch.events ++ sentTo s k op := by
  have hsame : ∃ ch', s.channels k = some ch' ∧ ch'.conditions = ch.conditions ∧ ch'.since = ch.since ∧
      (ch'.isOpen = true → ch.isOpen = true) ∧ (op ≠ .close k → ch'.isOpen = ch.isOpen) ∧ ch'.events = ch.events ++ [] :=
    ⟨ch, hk, rfl, rfl, id, fun _ => rfl, (List.append_nil _).symm⟩
  cases op with
  | subscribe conditions =>
    have hne : k ≠ s.subscribed := by
      intro heq
      subst heq
      rw [h.fresh _ le_rfl] at hk
      cases hk
    simpa [step, sentTo, Function.update_of_ne hne] using hsame
  | check =>
    simp only [step, sentTo, (checkClients_spec h.clients.nodup s).2.2]
    split_ifs
    · exact ⟨ch.push .empty, by rw [hk]; rfl, rfl, rfl, id, fun _ => rfl, by simp⟩
    · exact hsame
  | lock e => exact hsame
  | send n =>
    rcases send_cases s n with ⟨em, client, todo, hem, htodo, hstep⟩ | ⟨hidle, hstep⟩
    · simp only [hstep, trySend_channels, sentTo, hem, htodo, List.head?_cons, Option.map_some, Option.some_inj]
      by_cases hc : k = client.client ∧ s.Takes k
      · obtain ⟨rfl, htakes⟩ := hc
        refine ⟨ch.push (.event n), ?_, rfl, rfl, id, fun _ => rfl, ?_⟩
        · rw [if_pos ⟨rfl, htakes⟩, hk]
          rfl
        · rw [if_pos ⟨rfl, htakes⟩, Channel.events_push]
      · have hc₁ : ¬ (k = client.client ∧ s.Takes client.client) := fun hb => hc ⟨hb.1, hb.1 ▸ hb.2⟩
        have hc₂ : ¬ (client.client = k ∧ s.Takes k) := fun hb => hc ⟨hb.1.symm, hb.2⟩
        rw [if_neg hc₁, if_neg hc₂]
        exact hsame
    · rw [hstep, sentTo]
      cases hem : s.emissions n with
      | none => exact hsame
      | some em => simpa [hidle em hem] using hsame
  | store n =>
    rcases store_cases s n with ⟨em, -, -, hstep⟩ | ⟨-, hstep⟩
    · rw [hstep]
      exact hsame
    · rw [hstep]
      exact hsame
  | recv j =>
    by_cases hj : k = j
    · subst hj
      refine ⟨ch.recv, by simp [step, hk], ?_, ?_, ?_, ?_, by simp [sentTo]⟩ <;> unfold Channel.recv <;> split <;> simp
    · simpa [step, sentTo, Function.update_of_ne hj] using hsame
  | close j =>
    by_cases hj : k = j
    · subst hj
      exact ⟨{ ch with isOpen := false }, by simp [step, hk], rfl, rfl, nofun, fun hop => absurd rfl hop,
        by simp [sentTo, Channel.events]⟩
    · simpa [step, sentTo, Function.update_of_ne hj] using hsame

/-- a channel after a step was there before, or is that of a new client -/
theorem channel_of_step {s : State} (h : Sound s) (op : Op) {k : ℕ} {ch' : Channel}
    (hk : (step s op).channels k = some ch') :
    (∃ ch, s.channels k = some ch ∧ ch'.conditions = ch.conditions ∧ ch'.since = ch.since ∧
      (ch'.isOpen = true → ch.isOpen = true) ∧ (op ≠ .close k → ch'.isOpen = ch.isOpen) ∧
      ch'.events = ch.events ++ sentTo s k op) ∨
    ∃ conditions, op = .subscribe conditions ∧ k = s.subscribed ∧ ch' = ⟨conditions, s.emitted.length, [], [], true⟩ := by
  cases hold : s.channels k with
  | some ch =>
    obtain ⟨ch'', hk', hrest⟩ := channel_step h op hold
    obtain rfl := Option.some.inj (hk.symm.trans hk')
    exact .inl ⟨ch, rfl, hrest⟩
  | none =>
    refine .inr ?_
    cases op with
    | subscribe conditions =>
      simp only [step, Function.update_apply] at hk
      split_ifs at hk with hnew
      · exact ⟨conditions, rfl, hnew, (Option.some.inj hk).symm⟩
      · rw [hold] at hk
        cases hk
    | check =>
      simp only [step, (checkClients_spec h.clients.nodup s).2.2, hold, Option.map_none, ite_self] at hk
      cases hk
    | lock e =>
      rw [step, hold] at hk
      cases hk
    | send n =>
      rcases send_cases s n with ⟨em, client, todo, -, -, hstep⟩ | ⟨-, hstep⟩
      · simp only [hstep, trySend_channels, hold, Option.map_none, ite_self] at hk
        cases hk
      · rw [hstep, hold] at hk
        cases hk
    | store n =>
      rcases store_cases s n with ⟨em, -, -, hstep⟩ | ⟨-, hstep⟩
      · rw [hstep, hold] at hk
        cases hk
      · rw [hstep, hold] at hk
        cases hk
    | recv j =>
      simp only [step, Function.update_apply] at hk
      split_ifs at hk with hj
      · rw [← hj, hold] at hk
        cases hk
      · rw [hold] at hk
        cases hk
    | close j =>
      simp only [step, Function.update_apply] at hk
      split_ifs at hk with hj
      · rw [← hj, hold] at hk
        cases hk
      · rw [hold] at hk
        cases hk

/-- clients and events are only ever added -/
theorem counters_step {s : State} (h : Sound s) (op : Op) : s.subscribed ≤ (step s op).subscribed ∧
    (step s op).emitted = s.emitted ++ match op with | .lock e => [e] | _ => [] := by
  cases op with
  | lock e => exact ⟨le_rfl, rfl⟩
  | subscribe conditions => exact ⟨Nat.le_succ _, (List.append_nil _).symm⟩
  | check =>
    rw [step, (checkClients_spec h.clients.nodup s).2.1]
    exact ⟨le_rfl, (List.append_nil _).symm⟩
  | send n =>
    rcases send_cases s n with ⟨em, client, todo, -, -, hstep⟩ | ⟨-, hstep⟩
    · simp [hstep]
    · simp [hstep]
  | store n =>
    rcases store_cases s n with ⟨em, -, -, hstep⟩ | ⟨-, hstep⟩
    · simp [hstep]
    · simp [hstep]
  | recv k => exact ⟨le_rfl, (List.append_nil _).symm⟩
  | close k => exact ⟨le_rfl, (List.append_nil _).symm⟩

theorem State.Valid.of_step {s : State} (h : Sound s) (op : Op) {l : List RawEventSender} (hl : s.Valid l) :
    (step s op).Valid l where
  nodup := hl.nodup
  known c hc := by
    obtain ⟨ch, hch, hconds⟩ := hl.known c hc
    obtain ⟨ch', hch', hconds', -⟩ := channel_step h op hch
    exact ⟨ch', hch', hconds'.trans hconds⟩

/-- the other emissions are as they were -/
theorem State.EmissionSound.of_step {s : State} (h : Sound s) {op : Op} {n : ℕ} {em : Emission}
    (hem : s.EmissionSound n em) (hop : ∀ k, n ∉ sentTo s k op) : (step s op).EmissionSound n em where
  event := by
    rw [(counters_step h op).2, List.getElem?_append_left (List.getElem?_eq_some_iff.1 hem.event).1, hem.event]
  clients := hem.clients.of_step h op
  todo := hem.todo
  kept := hem.kept
  unsent c hc ch' hch' := by
    obtain ⟨ch, hch, -⟩ := hem.clients.known c (hem.todo.subset hc)
    obtain ⟨ch'', hch'', -, -, -, -, hevents⟩ := channel_step h op hch
    obtain rfl := Option.some.inj (hch'.symm.trans hch'')
    rw [hevents, List.mem_append, not_or]
    exact ⟨hem.unsent c hc ch hch, hop _⟩

/-- the emission that sends comes one client further -/
theorem State.EmissionSound.of_send {s : State} (h : Sound s) {n : ℕ} {em : Emission} {client : RawEventSender}
    {todo : List RawEventSender} (hem : s.EmissionSound n em) (hn : s.emissions n = some em)
    (htodo : em.todo = client :: todo) : (step s (.send n)).EmissionSound n
      { em with todo := todo, newClients := em.newClients ++ (client.after em.event).toList } where
  event := by simpa [(counters_step h (.send n)).2] using hem.event
  clients := hem.clients.of_step h _
  todo := (List.suffix_cons client todo).trans (htodo ▸ hem.todo)
  kept := by
    have hkept := hem.kept
    rw [htodo] at hkept
    rw [← hkept]
    cases hafter : client.after em.event with
    | none => simp [hafter]
    | some c => simp [hafter]
  unsent c hc ch' hch' := by
    have hnodup : client.client ∉ todo.map (·.client) := by
      have hsub := hem.clients.nodup.sublist (hem.todo.sublist.map _)
      rw [htodo, List.map_cons, List.nodup_cons] at hsub
      exact hsub.1
    have hne : client.client ≠ c.client := fun heq => hnodup (heq ▸ List.mem_map_of_mem hc)
    have hmem : c ∈ em.todo := htodo ▸ List.mem_cons_of_mem _ hc
    obtain ⟨ch, hch, -⟩ := hem.clients.known c (hem.todo.subset hmem)
    obtain ⟨ch'', hch'', -, -, -, -, hevents⟩ := channel_step h (.send n) hch
    obtain rfl := Option.some.inj (hch'.symm.trans hch'')
    have hnone : sentTo s c.client (.send n) = [] := by simp [sentTo, hn, htodo, hne]
    rw [hevents, hnone, List.append_nil]
    exact hem.unsent c hmem ch hch

/-- a channel receives an event only from a step of its emission, whose next client it is -/
theorem sentTo_cases (s : State) (k : ℕ) (op : Op) : sentTo s k op = [] ∨
    ∃ n em c todo, op = .send n ∧ s.emissions n = some em ∧ em.todo = c :: todo ∧ c.client = k ∧ s.Takes k ∧
      sentTo s k op = [n] := by
  cases op with
  | send n =>
    cases hem : s.emissions n with
    | none => exact .inl (by simp only [sentTo, hem])
    | some em =>
      cases htodo : em.todo with
      | nil => exact .inl (by simp [sentTo, hem, htodo])
      | cons c todo =>
        by_cases hc : c.client = k ∧ s.Takes k
        · exact .inr ⟨n, em, c, todo, rfl, hem, htodo, hc.1, hc.2, by simp [sentTo, hem, htodo, hc]⟩
        · exact .inl (by simp [sentTo, hem, htodo, hc])
  | _ => exact .inl rfl

/-- only an emission's own step sends its event -/
theorem mem_sentTo {s : State} {k n : ℕ} {op : Op} (h : n ∈ sentTo s k op) : op = .send n := by
  rcases sentTo_cases s k op with hnil | ⟨m, em, c, todo, rfl, -, -, -, -, hone⟩
  · rw [hnil] at h
    cases h
  · rw [hone, List.mem_singleton] at h
    rw [h]

theorem sound_init : Sound .init where
  fresh _ _ := rfl
  clients := ⟨List.nodup_nil, fun _ h => absurd h List.not_mem_nil⟩
  since _ _ h := by cases h
  sent _ _ h := by cases h
  emissions _ _ h := by cases h

/-- the emissions after a step: each was there and is as it was, or it is the one that the step is about -/
theorem emissions_step {s : State} (h : Sound s) (op : Op) {n : ℕ} {em : Emission}
    (hn : (step s op).emissions n = some em) : (step s op).EmissionSound n em := by
  have hother : s.emissions n = some em → op ≠ .send n → (step s op).EmissionSound n em := fun hold hop =>
    (h.emissions n em hold).of_step h fun k hk => hop (mem_sentTo hk)
  cases op with
  | subscribe conditions => exact hother hn nofun
  | check =>
    refine hother ?_ nofun
    rw [step, (checkClients_spec h.clients.nodup s).2.1] at hn
    exact hn
  | lock e =>
    simp only [step, Function.update_apply] at hn
    split_ifs at hn with hnew
    · obtain rfl := Option.some.inj hn
      subst hnew
      refine ⟨by simp [step], h.clients.of_step h _, List.suffix_rfl, rfl, fun c _ ch hch hmem => ?_⟩
      exact absurd (h.sent _ ch hch _ hmem) (lt_irrefl _)
    · exact hother hn nofun
  | send m =>
    rcases send_cases s m with ⟨em₀, client, todo, hem₀, htodo, hstep⟩ | ⟨hidle, hstep⟩
    · by_cases hm : n = m
      · subst hm
        have heq : em = { em₀ with todo := todo, newClients := em₀.newClients ++ (client.after em₀.event).toList } := by
          simpa [hstep] using hn.symm
        rw [heq]
        exact (h.emissions n em₀ hem₀).of_send h hem₀ htodo
      · refine hother ?_ fun heq => hm (Op.send.inj heq).symm
        simpa [hstep, Function.update_of_ne hm] using hn
    · rw [hstep] at hn ⊢
      exact h.emissions n em hn
  | store m =>
    refine hother ?_ nofun
    rcases store_cases s m with ⟨em₀, -, -, hstep⟩ | ⟨-, hstep⟩
    · simp only [hstep, Function.update_apply] at hn
      split_ifs at hn
      exact hn
    · rwa [hstep] at hn
  | recv k => exact hother hn nofun
  | close k => exact hother hn nofun

/-- what an emission keeps goes to the same channel -/
theorem RawEventSender.after_eq_some {c c' : RawEventSender} {e : Event} (h : c.after e = some c') :
    c'.client = c.client ∧ c'.conditions = c.conditions := by
  simp only [RawEventSender.after] at h
  split_ifs at h <;>
    obtain rfl := Option.some.inj h <;> exact ⟨rfl, rfl⟩

theorem after_sublist (l : List RawEventSender) (e : Event) :
    ((l.filterMap (·.after e)).map (·.client)).Sublist (l.map (·.client)) := by
  induction l with
  | nil => exact List.Sublist.slnil
  | cons c l ih =>
    cases hc : c.after e with
    | none =>
      rw [List.filterMap_cons, hc]
      exact ih.cons _
    | some c' =>
      rw [List.filterMap_cons, hc, List.map_cons, List.map_cons, (RawEventSender.after_eq_some hc).1]
      exact ih.cons_cons _

/-- what an emission has rebuilt, once it is through -/
theorem State.EmissionSound.newClients_eq {s : State} {n : ℕ} {em : Emission} (h : s.EmissionSound n em)
    (htodo : em.todo = []) : em.newClients = em.clients.filterMap (·.after em.event) := by
  have hkept := h.kept
  rwa [htodo, List.filterMap_nil, List.append_nil] at hkept

theorem State.EmissionSound.valid {s : State} {n : ℕ} {em : Emission} (h : s.EmissionSound n em) (htodo : em.todo = []) :
    s.Valid em.newClients := by
  rw [h.newClients_eq htodo]
  refine ⟨h.clients.nodup.sublist (after_sublist ..), fun c' hc' => ?_⟩
  obtain ⟨c, hc, hafter⟩ := List.mem_filterMap.1 hc'
  obtain ⟨hclient, hconds⟩ := RawEventSender.after_eq_some hafter
  rw [hclient, hconds]
  exact h.clients.known c hc

/-- the list of clients after a step is that of channels of their own -/
theorem clients_step {s : State} (h : Sound s) (op : Op) : (step s op).Valid (step s op).clients := by
  have hsame : (step s op).Valid s.clients := h.clients.of_step h op
  cases op with
  | subscribe conditions =>
    have hnew : ∀ c ∈ s.clients, c.client ≠ s.subscribed := by
      intro c hc heq
      obtain ⟨ch, hch, -⟩ := h.clients.known c hc
      rw [heq, h.fresh _ le_rfl] at hch
      cases hch
    refine ⟨?_, fun c hc => ?_⟩
    · simp only [step, List.map_append, List.map_cons, List.map_nil, List.nodup_append]
      refine ⟨h.clients.nodup, List.nodup_singleton _, fun k hk j hj heq => ?_⟩
      obtain ⟨c, hc, rfl⟩ := List.mem_map.1 hk
      exact hnew c hc (heq.trans (List.mem_singleton.1 hj))
    · rcases List.mem_append.1 hc with hc | hc
      · exact hsame.known c hc
      · obtain rfl := List.mem_singleton.1 hc
        exact ⟨_, Function.update_self .., rfl⟩
  | check =>
    have hclients : (step s .check).clients = s.clients.filter fun c => s.Takes c.client :=
      (checkClients_spec h.clients.nodup s).1
    rw [hclients]
    exact ⟨hsame.nodup.sublist (List.filter_sublist.map _), fun c hc => hsame.known c (List.mem_of_mem_filter hc)⟩
  | lock e => exact hsame
  | send n =>
    rcases send_cases s n with ⟨em, client, todo, -, -, hstep⟩ | ⟨-, hstep⟩
    · have hclients : (step s (.send n)).clients = s.clients := by rw [hstep, trySend_clients]
      rw [hclients]
      exact hsame
    · rw [hstep] at hsame ⊢
      exact hsame
  | store n =>
    rcases store_cases s n with ⟨em, hem, htodo, hstep⟩ | ⟨-, hstep⟩
    · have hclients : (step s (.store n)).clients = em.newClients := by rw [hstep]
      rw [hclients]
      exact ((h.emissions n em hem).valid htodo).of_step h _
    · rw [hstep] at hsame ⊢
      exact hsame
  | recv k => exact hsame
  | close k => exact hsame

theorem sound_step {s : State} (h : Sound s) (op : Op) : Sound (step s op) where
  fresh k hk := by
    cases hnone : (step s op).channels k with
    | none => rfl
    | some ch' =>
      exfalso
      rcases channel_of_step h op hnone with ⟨ch, hch, -⟩ | ⟨conditions, rfl, rfl, -⟩
      · rw [h.fresh k ((counters_step h op).1.trans hk)] at hch
        cases hch
      · exact absurd hk (Nat.not_succ_le_self _)
  clients := clients_step h op
  since k ch' hch' := by
    rw [(counters_step h op).2, List.length_append]
    rcases channel_of_step h op hch' with ⟨ch, hch, -, hsince, -⟩ | ⟨conditions, rfl, -, rfl⟩
    · have hle := h.since k ch hch
      omega
    · exact Nat.le_add_right ..
  sent k ch' hch' n hn := by
    rw [(counters_step h op).2, List.length_append]
    rcases channel_of_step h op hch' with ⟨ch, hch, -, -, -, -, hevents⟩ | ⟨conditions, rfl, -, rfl⟩
    · rw [hevents, List.mem_append] at hn
      rcases hn with hn | hn
      · exact Nat.lt_add_right _ (h.sent k ch hch n hn)
      · obtain rfl := mem_sentTo hn
        cases hem : s.emissions n with
        | none => simp [sentTo, hem] at hn
        | some em => exact Nat.lt_add_right _ (List.getElem?_eq_some_iff.1 (h.emissions n em hem).event).1
    · cases hn
  emissions n em hem := emissions_step h op hem

theorem sound_run (ops : List Op) : Sound (run step .init ops) :=
  inv_run (C := fun _ _ => True) (I := Sound) (fun _ op h _ => sound_step h op) sound_init (along_true ..)

/-! ## An emission that nothing interrupts -/

/-- `emit`, from its first lock to its second -/
def emit (s : State) (e : Event) : State :=
  run step s (Op.lock e :: List.replicate s.clients.length (Op.send s.emitted.length) ++ [Op.store s.emitted.length])

/-- an emission alone sends to the rest of its copy -/
theorem run_sends {s : State} {n : ℕ} {em : Emission} (h : s.emissions n = some em) :
    let s' := run step s (List.replicate em.todo.length (.send n))
    (∃ em', s'.emissions n = some em' ∧ em'.todo = [] ∧ em'.clients = em.clients ∧ em'.event = em.event) ∧
      (∀ m ≠ n, s'.emissions m = s.emissions m) ∧ s'.subscribed = s.subscribed ∧ s'.emitted = s.emitted := by
  induction htodo : em.todo generalizing s em with
  | nil => exact ⟨⟨em, h, htodo, rfl, rfl⟩, fun _ _ => rfl, rfl, rfl⟩
  | cons client todo ih =>
    have hstep := step_send h htodo
    have hnext : (step s (.send n)).emissions n = some { em with
        todo := todo, newClients := em.newClients ++ (client.after em.event).toList } := by
      rw [hstep]
      exact Function.update_self ..
    obtain ⟨⟨em', hem', hdone, hclients, hevent⟩, hothers, hsub, hemitted⟩ := ih hnext rfl
    refine ⟨⟨em', hem', hdone, hclients, hevent⟩, fun m hm => ?_, ?_, ?_⟩
    · refine (hothers m hm).trans ?_
      rw [hstep]
      exact Function.update_of_ne hm _ _
    · refine hsub.trans ?_
      rw [hstep, trySend_subscribed]
    · refine hemitted.trans ?_
      rw [hstep, trySend_emitted]

/-- **What an emission does to the list of clients** -/
theorem run_emission {s : State} (h : Sound s) (e : Event) : Sound (emit s e) ∧
    (emit s e).clients = s.clients.filterMap (·.after e) ∧ (emit s e).subscribed = s.subscribed ∧
      (∀ m ≠ s.emitted.length, (emit s e).emissions m = s.emissions m) ∧ (emit s e).emissions s.emitted.length = none ∧
      (emit s e).emitted = s.emitted ++ [e] := by
  have hlock : Sound (step s (.lock e)) := sound_step h _
  have hem : (step s (.lock e)).emissions s.emitted.length = some ⟨e, s.clients, s.clients, []⟩ :=
    Function.update_self ..
  obtain ⟨⟨em, hem', hdone, hclients, hevent⟩, hothers, hsub, hemitted⟩ := run_sends hem
  have hrun : emit s e = step (run step (step s (.lock e)) (List.replicate s.clients.length (.send s.emitted.length)))
      (.store s.emitted.length) := by
    rw [emit, List.cons_append, run_cons, run_append]
    rfl
  have hsent : Sound (run step (step s (.lock e)) (List.replicate s.clients.length (.send s.emitted.length))) :=
    inv_run (C := fun _ _ => True) (I := Sound) (fun _ op h _ => sound_step h op) hlock (along_true ..)
  have hsound : Sound (emit s e) := hrun ▸ sound_step hsent _
  rw [step_store hem' hdone] at hrun
  rw [hrun] at hsound ⊢
  refine ⟨hsound, ?_, hsub, fun m hm => ?_, Function.update_self .., hemitted⟩
  · have hnew := (hsent.emissions _ em hem').newClients_eq hdone
    rwa [hclients, hevent] at hnew
  · refine (Function.update_of_ne hm _ _).trans ((hothers m hm).trans ?_)
    exact Function.update_of_ne hm _ _

end Nanocl.Emitter
