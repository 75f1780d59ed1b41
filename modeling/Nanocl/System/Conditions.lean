/-
When the stream of a client that watches for conditions ends. The emitter counts the events that meet any of the
conditions, and drops the client once the count is the number of conditions; it does not look at which of them were met.

- `closed_iff`: the stream is closed once as many events as there are conditions were equal to one of them.
- `closes_when_met_iff`: it is closed exactly from the event on at which the last condition has agreed with one, if and
  only if the count and the conditions agree on every prefix of the events.
- `closed_by_repeated`: two events that meet the same condition close the stream of a client that waits for another.
-/
import Nanocl.System.RawEmitter

namespace Nanocl.Emitter

open Nanocl.Lib

/-! ## Property -/

/-- one emission after the other -/
def emitAll (s : State) (es : List Event) : State := es.foldl emit s

/-- no sender to the channel is left, so its stream ends -/
structure State.Closed (s : State) (k : ℕ) : Prop where
  clients : ∀ c ∈ s.clients, c.client ≠ k
  emissions : ∀ n em, s.emissions n = some em → ∀ c ∈ em.clients, c.client ≠ k

/-- each condition agrees with one of the events -/
def AllMet (conditions : List EventCondition) (es : List Event) : Prop := ∀ c ∈ conditions, ∃ e ∈ es, c.Agrees e

instance (conditions : List EventCondition) (es : List Event) : Decidable (AllMet conditions es) := by
  unfold AllMet; infer_instance

/-- how many of the events equal one of the conditions -/
def hits (conditions : List EventCondition) (es : List Event) : ℕ := es.countP fun e => conditions.any (·.eq e)

/-! ## The counter -/

/-- a client that has been dropped is not taken up again -/
theorem gone_emitAll {s : State} (h : Sound s) {k : ℕ} (hk : ∀ c ∈ s.clients, c.client ≠ k) (es : List Event) :
    ∀ c ∈ (emitAll s es).clients, c.client ≠ k := by
  induction es generalizing s with
  | nil => exact hk
  | cons e es ih =>
    obtain ⟨hsound, hclients, -⟩ := run_emission h e
    refine ih hsound fun c' hc' => ?_
    rw [hclients] at hc'
    obtain ⟨c, hc, hafter⟩ := List.mem_filterMap.1 hc'
    rw [(RawEventSender.after_eq_some hafter).1]
    exact hk c hc

/-- emissions that nothing interrupts leave the others as they were -/
theorem emissions_emitAll {s : State} (h : Sound s) (es : List Event) {n : ℕ} {em : Emission}
    (hn : (emitAll s es).emissions n = some em) : s.emissions n = some em := by
  induction es generalizing s with
  | nil => exact hn
  | cons e es ih =>
    obtain ⟨hsound, -, -, hothers, hended, -⟩ := run_emission h e
    have hafter := ih hsound hn
    by_cases hlast : n = s.emitted.length
    · rw [hlast, hended] at hafter
      cases hafter
    · rwa [hothers n hlast] at hafter

/-- what an emission keeps of a client with conditions -/
theorem after_conditions {c : RawEventSender} {conditions : List EventCondition} (hc : c.conditions = some conditions)
    (hne : conditions ≠ []) (e : Event) :
    c.after e = if c.met + hits conditions [e] ≠ conditions.length then
      some { c with met := c.met + hits conditions [e] } else none := by
  have hempty : ¬ conditions.isEmpty = true := by simpa using hne
  have hmet : (if conditions.any (·.eq e) then c.met + 1 else c.met) = c.met + hits conditions [e] := by
    simp only [hits, List.countP_singleton]
    split_ifs <;> rfl
  simp only [RawEventSender.after, hc, Option.getD_some, if_neg hempty, hmet]

/-- a client is in the list as long as fewer events than it has conditions have met one -/
theorem listed_emitAll {s : State} (h : Sound s) {c : RawEventSender} (hmem : c ∈ s.clients)
    {conditions : List EventCondition} (hc : c.conditions = some conditions) (hmet : c.met < conditions.length)
    (es : List Event) : (∃ c' ∈ (emitAll s es).clients, c'.client = c.client) ↔
      c.met + hits conditions es < conditions.length := by
  have hne : conditions ≠ [] := by
    rintro rfl
    exact absurd hmet (Nat.not_lt_zero _)
  induction es generalizing s c with
  | nil => exact iff_of_true ⟨c, hmem, rfl⟩ hmet
  | cons e es ih =>
    obtain ⟨hsound, hclients, -⟩ := run_emission h e
    have hafter := after_conditions hc hne e
    have hhits : hits conditions (e :: es) = hits conditions [e] + hits conditions es := by
      rw [hits, hits, hits, ← List.countP_append, List.singleton_append]
    have hone : hits conditions [e] ≤ 1 := List.countP_le_length
    rw [hhits, ← Nat.add_assoc]
    by_cases hfull : c.met + hits conditions [e] = conditions.length
    · -- the event that fills the count
      rw [if_neg (not_not.2 hfull)] at hafter
      refine iff_of_false ?_ (by omega)
      rintro ⟨c', hc', hclient⟩
      refine gone_emitAll hsound (fun d' hd' heq => ?_) es c' hc' hclient
      rw [hclients] at hd'
      obtain ⟨d, hd, hdafter⟩ := List.mem_filterMap.1 hd'
      have hdc : d = c := List.inj_on_of_nodup_map h.clients.nodup hd hmem
        ((RawEventSender.after_eq_some hdafter).1.symm.trans heq)
      rw [hdc, hafter] at hdafter
      cases hdafter
    · rw [if_pos hfull] at hafter
      have hkept : { c with met := c.met + hits conditions [e] } ∈ (emit s e).clients := by
        rw [hclients]
        exact List.mem_filterMap.2 ⟨c, hmem, hafter⟩
      exact ih hsound hkept hc (by change c.met + _ < _; omega)

/-- **The stream of a new client is closed once as many events as it has conditions were equal to one of them.** -/
theorem closed_iff (ops : List Op) {conditions : List EventCondition} (hne : conditions ≠ []) (es : List Event) :
    (emitAll (step (run step .init ops) (.subscribe (some conditions))) es).Closed (run step .init ops).subscribed ↔
      conditions.length ≤ hits conditions es := by
  have hs : Sound (run step .init ops) := sound_run ops
  have hsub : Sound (step (run step .init ops) (.subscribe (some conditions))) := sound_step hs _
  have hmem : ⟨(run step .init ops).subscribed, some conditions, 0⟩ ∈
      (step (run step .init ops) (.subscribe (some conditions))).clients := List.mem_append_right _ (List.mem_singleton_self _)
  have hlisted := listed_emitAll hsub hmem rfl (List.length_pos_iff.2 hne) es
  rw [Nat.zero_add] at hlisted
  constructor
  · intro h
    by_contra hlt
    obtain ⟨c, hc, hclient⟩ := hlisted.2 (not_le.1 hlt)
    exact h.clients c hc hclient
  · intro hle
    refine ⟨fun c hc hclient => absurd (hlisted.1 ⟨c, hc, hclient⟩) (not_lt.2 hle), fun n em hem c hc hclient => ?_⟩
    -- the emissions in flight began before the subscription
    have hold : (run step .init ops).emissions n = some em := emissions_emitAll hsub es hem
    obtain ⟨ch, hch, -⟩ := (hs.emissions n em hold).clients.known c hc
    rw [hclient, hs.fresh _ le_rfl] at hch
    cases hch

/-- **The stream closes with the last condition exactly if the count does on every prefix of the events.** -/
theorem closes_when_met_iff (ops : List Op) (conditions : List EventCondition) (hne : conditions ≠ []) (es : List Event) :
    (∀ n ≤ es.length, (emitAll (step (run step .init ops) (.subscribe (some conditions))) (es.take n)).Closed
        (run step .init ops).subscribed ↔ AllMet conditions (es.take n)) ↔
      ∀ n ≤ es.length, conditions.length ≤ hits conditions (es.take n) ↔ AllMet conditions (es.take n) := by
  refine forall_congr' fun n => imp_congr_right fun _ => ?_
  rw [closed_iff ops hne]

/-- the start of a cargo and the end of a job, as `nanocl` waits for them -/
def startOf (cargo : String) : EventCondition := ⟨some cargo, some .cargo, none, none, [.normal, .error], [.start]⟩

def finishOf (job : String) : EventCondition := ⟨some job, some .job, none, none, [.normal, .error], [.finish]⟩

def started (cargo : String) : Event := ⟨⟨.normal, "start", some ⟨some cargo, .cargo, []⟩⟩, none⟩

def finished (job : String) : Event := ⟨⟨.normal, "finish", some ⟨some job, .job, []⟩⟩, none⟩

/-- each condition once, with another event in between -/
theorem closes_when_met_two :
    let conditions := [startOf "web.global", finishOf "backup"]
    let es := [finished "backup", started "db.global", started "web.global", finished "backup"]
    ∀ n ≤ es.length, (emitAll (step .init (.subscribe (some conditions))) (es.take n)).Closed 0 ↔
      AllMet conditions (es.take n) :=
  (closes_when_met_iff [] [startOf "web.global", finishOf "backup"] (List.cons_ne_nil _ _)
    [finished "backup", started "db.global", started "web.global", finished "backup"]).2 (by decide)

/-- two starts of the cargo close the stream of a client that also waits for the job -/
theorem closed_by_repeated : ¬ ∀ (ops : List Op) (conditions : List EventCondition) (es : List Event), conditions ≠ [] →
    ∀ n ≤ es.length, (emitAll (step (run step .init ops) (.subscribe (some conditions))) (es.take n)).Closed
      (run step .init ops).subscribed ↔ AllMet conditions (es.take n) := by
  intro h
  have hne : [startOf "web.global", finishOf "backup"] ≠ [] := List.cons_ne_nil _ _
  have hclosed := (closed_iff [] hne [started "web.global", started "web.global"]).2 (by decide)
  have hmet := (h [] _ [started "web.global", started "web.global"] hne 2 le_rfl).1 hclosed
  exact absurd hmet (by decide)

end Nanocl.Emitter
