/-
What the emitter owes its clients under every interleaving of subscriptions, checks and emissions.

- `Served`: a client whose receiver is open and whose conditions are not all met is in the list; each event that was
  emitted since its subscription, up to the one that meets its last condition, has been sent to it or is about to be; and
  these events were sent in the order of their emission.
- `served_iff`: along a run it holds after every step exactly if every step meets `Op.Spares`. A check and a send find room
  in the channel of such a client, an event is not sent after a later one, and no emission stores a list without such a
  client: the client was there when the list was copied, and the event does not fill the count of its copy.
- `lost_subscriber`: a client that subscribes between the two locks of an emission is dropped.
-/
import Nanocl.System.Conditions

namespace Nanocl.Emitter

open Nanocl.Lib

/-! ## Property and condition -/

/-- after these events the client still waits: it has no conditions, or not all of them are met -/
def Channel.Waiting (ch : Channel) (es : List Event) : Prop :=
  ch.conditions.getD [] = [] ∨ ¬ AllMet (ch.conditions.getD []) es

instance (ch : Channel) (es : List Event) : Decidable (ch.Waiting es) := by unfold Channel.Waiting; infer_instance

/-- the client waits, after all events since its subscription -/
def State.Waits (s : State) (ch : Channel) : Prop := ch.Waiting (s.emitted.drop ch.since)

/-- the event was emitted since the subscription of the client, which was still waiting -/
structure State.Owed (s : State) (ch : Channel) (n : ℕ) : Prop where
  since : ch.since ≤ n
  emitted : n < s.emitted.length
  waiting : ch.Waiting ((s.emitted.take n).drop ch.since)

/-- an emission has yet to send its event to the client -/
def State.Pending (s : State) (k n : ℕ) : Prop := ∃ em, s.emissions n = some em ∧ ∃ c ∈ em.todo, c.client = k

/-- **No subscriber is lost and no event skipped** -/
structure Served (s : State) : Prop where
  listed : ∀ k ch, s.channels k = some ch → ch.isOpen = true → s.Waits ch → ∃ c ∈ s.clients, c.client = k
  sent : ∀ k ch, s.channels k = some ch → ch.isOpen = true → ∀ n, s.Owed ch n → n ∈ ch.events ∨ s.Pending k n
  ordered : ∀ k ch, s.channels k = some ch → ch.isOpen = true →
    ch.events.Pairwise fun a b => s.Owed ch a → s.Owed ch b → a < b

/-- the step serves the clients -/
def Op.Spares (s : State) : Op → Prop
  | check => ∀ c ∈ s.clients, ∀ ch, s.channels c.client = some ch → ch.isOpen = true → s.Waits ch → ch.queue.length < 100
  | send n => ∀ em c todo ch, s.emissions n = some em → em.todo = c :: todo → s.channels c.client = some ch →
      ch.isOpen = true → s.Owed ch n → ch.queue.length < 100 ∧ ∀ m ∈ ch.events, s.Owed ch m → m < n
  | store n => ∀ em, s.emissions n = some em → em.todo = [] → ∀ c ∈ s.clients, ∀ ch, s.channels c.client = some ch →
      ch.isOpen = true → s.Waits ch → ∃ c' ∈ em.clients, c'.client = c.client ∧ (c'.after em.event).isSome
  | _ => True

/-! ## What a step does to the obligations -/

/-- a client that waits after more events waited before them -/
theorem Channel.Waiting.of_append {ch : Channel} {es l : List Event} (h : ch.Waiting (es ++ l)) : ch.Waiting es :=
  h.imp id fun hmet hall => hmet fun c hc =>
    let ⟨e, he, hagrees⟩ := hall c hc
    ⟨e, List.mem_append_left l he, hagrees⟩

/-- a channel with the same conditions, since the same event -/
theorem waiting_congr {ch ch' : Channel} (h : ch'.conditions = ch.conditions) (es : List Event) :
    ch'.Waiting es ↔ ch.Waiting es := by
  rw [Channel.Waiting, Channel.Waiting, h]

theorem waits_of_step {s : State} (h : Sound s) (op : Op) {k : ℕ} {ch ch' : Channel} (hk : s.channels k = some ch)
    (hconds : ch'.conditions = ch.conditions) (hsince : ch'.since = ch.since) (hw : (step s op).Waits ch') :
    s.Waits ch := by
  rw [State.Waits, waiting_congr hconds, (counters_step h op).2, hsince,
    List.drop_append_of_le_length (h.since k ch hk)] at hw
  exact hw.of_append

/-- an event of before is owed after the step if it was before -/
theorem owed_step {s : State} (h : Sound s) (op : Op) {ch ch' : Channel} (hconds : ch'.conditions = ch.conditions)
    (hsince : ch'.since = ch.since) {n : ℕ} (hn : n < s.emitted.length) : (step s op).Owed ch' n ↔ s.Owed ch n := by
  have htake : (step s op).emitted.take n = s.emitted.take n := by
    rw [(counters_step h op).2, List.take_append_of_le_length hn.le]
  have hlen : n < (step s op).emitted.length := by
    rw [(counters_step h op).2, List.length_append]
    exact Nat.lt_add_right _ hn
  constructor
  · intro howed
    refine ⟨hsince ▸ howed.since, hn, ?_⟩
    have hw := howed.waiting
    rwa [waiting_congr hconds, htake, hsince] at hw
  · intro howed
    refine ⟨hsince ▸ howed.since, hlen, ?_⟩
    rw [waiting_congr hconds, htake, hsince]
    exact howed.waiting

/-- the next event is owed to a client that waits -/
theorem waits_of_owed {s : State} {e : Event} (h : Sound s) {ch : Channel} (howed : (step s (.lock e)).Owed ch s.emitted.length) :
    s.Waits ch := by
  have hw := howed.waiting
  rwa [(counters_step h _).2, List.take_left] at hw

/-- a client that is listed stays so, unless the step drops it -/
theorem listed_step {s : State} (h : Sound s) {op : Op} {c : RawEventSender} (hc : c ∈ s.clients) {ch : Channel}
    (hch : s.channels c.client = some ch) (hopen : ch.isOpen = true) (hwaits : s.Waits ch) (hop : op.Spares s) :
    ∃ c' ∈ (step s op).clients, c'.client = c.client := by
  cases op with
  | subscribe conditions => exact ⟨c, List.mem_append_left _ hc, rfl⟩
  | check =>
    refine ⟨c, ?_, rfl⟩
    have hclients : (step s .check).clients = s.clients.filter fun c => s.Takes c.client :=
      (checkClients_spec h.clients.nodup s).1
    rw [hclients, List.mem_filter, decide_eq_true_eq]
    exact ⟨hc, ch, hch, hopen, hop c hc ch hch hopen hwaits⟩
  | lock e => exact ⟨c, hc, rfl⟩
  | send n =>
    refine ⟨c, ?_, rfl⟩
    rcases send_cases s n with ⟨em, client, todo, -, -, hstep⟩ | ⟨-, hstep⟩
    · rw [hstep]
      exact (trySend_clients ..).symm ▸ hc
    · rwa [hstep]
  | store n =>
    rcases store_cases s n with ⟨em, hem, htodo, hstep⟩ | ⟨-, hstep⟩
    · obtain ⟨c', hc', hclient, hafter⟩ := hop em hem htodo c hc ch hch hopen hwaits
      obtain ⟨c'', hc''⟩ := Option.isSome_iff_exists.1 hafter
      rw [hstep]
      refine ⟨c'', ?_, (RawEventSender.after_eq_some hc'').1.trans hclient⟩
      rw [(h.emissions n em hem).newClients_eq htodo]
      exact List.mem_filterMap.2 ⟨c', hc', hc''⟩
    · rw [hstep]
      exact ⟨c, hc, rfl⟩
  | recv k => exact ⟨c, hc, rfl⟩
  | close k => exact ⟨c, hc, rfl⟩

/-- an event that is about to be sent to a client still is, or the step sends it -/
theorem pending_step {s : State} (h : Sound s) {op : Op} {k n : ℕ} {ch : Channel} (hk : s.channels k = some ch)
    (hopen : ch.isOpen = true) (howed : s.Owed ch n) (hpending : s.Pending k n) (hop : op.Spares s) :
    n ∈ sentTo s k op ∨ (step s op).Pending k n := by
  obtain ⟨em, hem, c, hc, hclient⟩ := hpending
  subst hclient
  have hsame : (step s op).emissions n = s.emissions n → (step s op).Pending c.client n := fun heq =>
    ⟨em, heq.trans hem, c, hc, rfl⟩
  cases op with
  | subscribe conditions => exact .inr (hsame rfl)
  | check =>
    refine .inr (hsame ?_)
    rw [step, (checkClients_spec h.clients.nodup s).2.1]
  | lock e => exact .inr (hsame (Function.update_of_ne howed.emitted.ne _ _))
  | send m =>
    rcases send_cases s m with ⟨em', client, todo, hem', htodo, hstep⟩ | ⟨-, hstep⟩
    · by_cases hm : n = m
      · subst hm
        obtain rfl := Option.some.inj (hem.symm.trans hem')
        rw [htodo] at hc
        rcases List.mem_cons.1 hc with rfl | hc
        · -- its turn has come
          refine .inl ?_
          have htakes : s.Takes c.client := ⟨ch, hk, hopen, (hop em c todo ch hem htodo hk hopen howed).1⟩
          simp [sentTo, hem, htodo, htakes]
        · refine .inr ⟨{ em with
            todo := todo, newClients := em.newClients ++ (client.after em.event).toList }, ?_, c, hc, rfl⟩
          rw [hstep]
          exact Function.update_self ..
      · refine .inr (hsame ?_)
        rw [hstep]
        exact Function.update_of_ne hm _ _
    · exact .inr (hsame (by rw [hstep]))
  | store m =>
    rcases store_cases s m with ⟨em', hem', htodo, hstep⟩ | ⟨-, hstep⟩
    · refine .inr (hsame ?_)
      rw [hstep]
      refine Function.update_of_ne (fun hm => ?_) _ _
      subst hm
      obtain rfl := Option.some.inj (hem.symm.trans hem')
      rw [htodo] at hc
      cases hc
    · exact .inr (hsame (by rw [hstep]))
  | recv k => exact .inr (hsame rfl)
  | close k => exact .inr (hsame rfl)

/-! ## One step -/

theorem served_init : Served .init where
  listed _ _ h := by cases h
  sent _ _ h := by cases h
  ordered _ _ h := by cases h

/-- **A step that meets the condition serves the clients.** -/
theorem served_step {s : State} (h : Sound s) (hserved : Served s) {op : Op} (hop : op.Spares s) : Served (step s op) where
  listed k ch' hch' hopen' hwaits' := by
    rcases channel_of_step h op hch' with ⟨ch, hch, hconds, hsince, hopen, -, -⟩ | ⟨conditions, rfl, rfl, -⟩
    · have hwaits : s.Waits ch := waits_of_step h op hch hconds hsince hwaits'
      obtain ⟨c, hc, rfl⟩ := hserved.listed k ch hch (hopen hopen') hwaits
      exact listed_step h hc hch (hopen hopen') hwaits hop
    · exact ⟨_, List.mem_append_right _ (List.mem_singleton_self _), rfl⟩
  sent k ch' hch' hopen' n howed' := by
    rcases channel_of_step h op hch' with ⟨ch, hch, hconds, hsince, hopen, -, hevents⟩ | ⟨conditions, rfl, rfl, rfl⟩
    · rw [hevents, List.mem_append]
      by_cases hn : n < s.emitted.length
      · have howed : s.Owed ch n := (owed_step h op hconds hsince hn).1 howed'
        rcases hserved.sent k ch hch (hopen hopen') n howed with hsent | hpending
        · exact .inl (.inl hsent)
        · exact (pending_step h hch (hopen hopen') howed hpending hop).imp .inr id
      · -- the event whose emission begins with this step
        have hemitted := howed'.emitted
        rw [(counters_step h op).2, List.length_append] at hemitted
        cases op with
        | lock e =>
          obtain rfl : n = s.emitted.length := by simp at hemitted; omega
          have hwaits : s.Waits ch := by
            have hw := waits_of_owed h howed'
            rwa [State.Waits, waiting_congr hconds, hsince] at hw
          obtain ⟨c, hc, hclient⟩ := hserved.listed k ch hch (hopen hopen') hwaits
          exact .inr ⟨_, Function.update_self .., c, hc, hclient⟩
        | _ => exact absurd hemitted hn
    · -- nothing has been emitted since the subscription
      have hlen := howed'.emitted
      exact absurd howed'.since (not_le.2 hlen)
  ordered k ch' hch' hopen' := by
    rcases channel_of_step h op hch' with ⟨ch, hch, hconds, hsince, hopen, -, hevents⟩ | ⟨conditions, rfl, -, rfl⟩
    · have hlt : ∀ m ∈ ch.events, m < s.emitted.length := h.sent k ch hch
      have hold : ch.events.Pairwise fun a b => (step s op).Owed ch' a → (step s op).Owed ch' b → a < b := by
        refine List.Pairwise.imp_of_mem (fun {a b} ha hb hab hoa hob => ?_) (hserved.ordered k ch hch (hopen hopen'))
        exact hab ((owed_step h op hconds hsince (hlt a ha)).1 hoa) ((owed_step h op hconds hsince (hlt b hb)).1 hob)
      rw [hevents]
      rcases sentTo_cases s k op with hnone | ⟨n, em, c, todo, rfl, hem, htodo, rfl, -, hone⟩
      · rwa [hnone, List.append_nil]
      · rw [hone, List.pairwise_append]
        refine ⟨hold, List.pairwise_singleton _ _, fun m hm n' hn' hom hon => ?_⟩
        obtain rfl := List.mem_singleton.1 hn'
        have hn : n' < s.emitted.length := (List.getElem?_eq_some_iff.1 (h.emissions n' em hem).event).1
        exact (hop em c todo ch hem htodo hch (hopen hopen') ((owed_step h _ hconds hsince hn).1 hon)).2 m hm
          ((owed_step h _ hconds hsince (hlt m hm)).1 hom)
    · exact List.Pairwise.nil

/-- the clients after an operation that emits nothing wait as before -/
theorem waits_step {s : State} (h : Sound s) {op : Op} (hop : ∀ e, op ≠ .lock e) {ch ch' : Channel}
    (hconds : ch'.conditions = ch.conditions) (hsince : ch'.since = ch.since) (hw : s.Waits ch) : (step s op).Waits ch' := by
  have hemitted : (step s op).emitted = s.emitted := by
    rw [(counters_step h op).2]
    cases op with
    | lock e => exact absurd rfl (hop e)
    | _ => exact List.append_nil _
  rw [State.Waits, waiting_congr hconds, hemitted, hsince]
  exact hw

/-- **A step after which the clients are served meets the condition.** -/
theorem spares_of_served {s : State} (h : Sound s) {op : Op} (hserved : Served (step s op)) : op.Spares s := by
  cases op with
  | check =>
    intro c hc ch hch hopen hwaits
    obtain ⟨ch', hch', hconds, hsince, -, hopen', -⟩ := channel_step h .check hch
    obtain ⟨c', hc', hclient⟩ := hserved.listed c.client ch' hch' ((hopen' nofun).trans hopen)
      (waits_step h (fun _ heq => by cases heq) hconds hsince hwaits)
    have hclients : (step s .check).clients = s.clients.filter fun c => s.Takes c.client :=
      (checkClients_spec h.clients.nodup s).1
    rw [hclients, List.mem_filter, decide_eq_true_eq, hclient] at hc'
    obtain ⟨ch₀, hch₀, htakes⟩ := hc'.2
    obtain rfl := Option.some.inj (hch.symm.trans hch₀)
    exact htakes.2
  | send n =>
    intro em c todo ch hem htodo hch hopen howed
    obtain ⟨ch', hch', hconds, hsince, -, hopen', hevents⟩ := channel_step h (.send n) hch
    have hisOpen : ch'.isOpen = true := (hopen' nofun).trans hopen
    have hsound := h.emissions n em hem
    have hmem : c ∈ em.todo := htodo ▸ List.mem_cons_self
    -- the event has not been sent before, and is no longer about to be
    have hsent : n ∈ sentTo s c.client (.send n) := by
      rcases hserved.sent c.client ch' hch' hisOpen n ((owed_step h _ hconds hsince howed.emitted).2 howed) with
        hin | ⟨em', hem', c', hc', hclient⟩
      · rw [hevents, List.mem_append] at hin
        exact hin.resolve_left (hsound.unsent c hmem ch hch)
      · exfalso
        have htodo' : todo = em'.todo := by
          rw [step_send hem htodo] at hem'
          simp only [Function.update_self, Option.some_inj] at hem'
          rw [← hem']
        rw [← htodo'] at hc'
        have hnodup := hsound.clients.nodup.sublist (hsound.todo.sublist.map _)
        rw [htodo, List.map_cons, List.nodup_cons] at hnodup
        exact hnodup.1 (hclient ▸ List.mem_map_of_mem hc')
    constructor
    · rcases sentTo_cases s c.client (.send n) with hnone | ⟨-, -, -, -, -, -, -, -, ⟨ch₀, hch₀, htakes⟩, -⟩
      · rw [hnone] at hsent
        cases hsent
      · obtain rfl := Option.some.inj (hch.symm.trans hch₀)
        exact htakes.2
    · intro m hm hom
      have hordered := hserved.ordered c.client ch' hch' hisOpen
      rw [hevents, List.pairwise_append] at hordered
      exact hordered.2.2 m hm n hsent ((owed_step h _ hconds hsince hom.emitted).2 hom)
        ((owed_step h _ hconds hsince howed.emitted).2 howed)
  | store n =>
    intro em hem htodo c hc ch hch hopen hwaits
    obtain ⟨ch', hch', hconds, hsince, -, hopen', -⟩ := channel_step h (.store n) hch
    obtain ⟨c'', hc'', hclient⟩ := hserved.listed c.client ch' hch' ((hopen' nofun).trans hopen)
      (waits_step h (fun _ heq => by cases heq) hconds hsince hwaits)
    rw [step_store hem htodo] at hc''
    rw [(h.emissions n em hem).newClients_eq htodo] at hc''
    obtain ⟨c', hc', hafter⟩ := List.mem_filterMap.1 hc''
    refine ⟨c', hc', (RawEventSender.after_eq_some hafter).1.symm.trans hclient, ?_⟩
    rw [hafter]
    rfl
  | _ => trivial

/-! ## Runs -/

/-- **The clients are served after every step of a run exactly if every step meets the condition.** -/
theorem served_iff (ops : List Op) :
    Along step (fun s op => Served (step s op)) .init ops ↔ Along step (fun s op => op.Spares s) .init ops :=
  along_inv_iff (J := fun s => Sound s ∧ Served s) (fun _ h => h.2)
    (fun _ op h hop => ⟨sound_step h.1 op, served_step h.1 h.2 hop⟩) (fun _ _ h hserved => spares_of_served h.1 hserved)
    ⟨sound_init, served_init⟩ ops

/-- a client that subscribes between the two locks of an emission is not in the list that the emission stores -/
theorem lost_subscriber : ¬ ∀ ops, Along step (fun s op => Served (step s op)) .init ops := by
  intro h
  have hrun := (along_iff ..).1 (h [.lock (started "web.global"), .subscribe none, .store 0])
    [.lock (started "web.global"), .subscribe none] (.store 0) [] rfl
  obtain ⟨c, hc, -⟩ := hrun.listed 0 ⟨none, 1, [], [], true⟩ rfl rfl (.inl rfl)
  cases hc

end Nanocl.Emitter
