/-
A stopped object and the checks of the code.

`Harmless` says of each step that it does not undo the stop. What undoes it was let through before: `exec_docker` looks at
the row when it handles a start or a death, `job_ttl` at the instances when it counts them, the event loop takes the event of
a task. Here the conditions stand where these look, and on what they look at (`Checked`).

- `Quiet.harmless`, `Quiet.step`: where nothing is under way that undoes the stop, a checked step is harmless, and leaves
  nothing of the kind under way.
- `stays_stopped_of_checked`: a stopped object stays stopped in every run of checked steps.
-/
import Nanocl.Status.Stopped

namespace Nanocl.Stopped

open Nanocl.Lib Nanocl.Status

variable (E : Env)

/-! ## Condition -/

/-- the instruction sets another status than stop, whatever the row is -/
def Instr.undoes : Instr → Prop
  | .setActual status => status ≠ .stop
  | .write u => ∃ status ∈ u.actual, status ≠ .stop
  | _ => False

/-- what is under way: for docker's events, in the event loop, and in the tasks and requests -/
def St.pending (s : St) : List Instr := s.docker ++ s.loop ++ s.threads.flatMap Thread.code

/-- it sets no other status once the status stop is set, and schedules no deletion -/
def Fine (isSet : Bool) (i : Instr) : Prop := (isSet = true → ¬ i.undoes) ∧ (i = .ttlSchedule → E.ttl = none)

/-- the status is set by the next step of the stop task, or found by that of the request -/
def StopPhase.sets (row : ObjPsStatus) : StopPhase → Prop
  | .setWrite _ => True
  | .setActual | .read => row.actual = .stop
  | _ => False

/-- what the check looks at lets nothing through that undoes the stop: `exec_docker` finds no status to set in the row;
`job_ttl` counts a container that runs, or the stop task is still to set the status and the job has no time to live; and a
container that is started will still be stopped -/
def SafeCheck (s : St) : Instr → Prop
  | .handle e => s.stop.isSet = true → e.sets s.row = none
  | .ttlCount => ∀ n ∈ countStatus (listed s), n.2.2.2 = 0 → s.stop.isSet = false ∧ E.ttl = none
  | .startContainer id => Startable s id → s.stop.stops id
  | _ => True

/-- the step passes no check that undoes the stop; when the status is set, nothing is past its check; and once it is set, no
task fails and no update is asked for -/
def Checked (s : St) : Op → Prop
  | .stop ok =>
    Harmless E s (.stop ok) ∧ (s.stop.sets s.row → ∀ i ∈ s.pending, ¬ i.undoes) ∧ (s.stop = .emit → ok = true)
  | .docker ok => ∀ i ∈ s.docker.head?, ok = true → SafeCheck E s i
  | .loop ok =>
    (∀ i ∈ s.loop.head?, ok = true → SafeCheck E s i) ∧
      ∀ n, s.channel.head? = some (.task n) → ∀ i ∈ E.task n, Fine E s.stop.isSet i
  | .thread i ok =>
    ∀ t ∈ s.threads[i]?, ∀ c ∈ t.code.head?, (ok = true → SafeCheck E s c) ∧
      (t.task = true → s.stop.isSet = true → (execOr E ok s c).2 ≠ .err)
  | .restarts id => Startable s id → s.stop.stops id
  | .secretUpdated _ => s.stop.isSet = false
  | .dies _ => True

/-! ## What is under way -/

variable {E} {s s' : St}

variable (E) in
/-- nothing is under way that undoes the stop -/
def Quiet (s : St) : Prop := ∀ i ∈ s.pending, Fine E s.stop.isSet i

theorem mem_pending {i : Instr} : i ∈ s.pending ↔ i ∈ s.docker ∨ i ∈ s.loop ∨ ∃ t ∈ s.threads, i ∈ t.code := by
  simp [St.pending]

theorem fine_nil {isSet : Bool} : ∀ i ∈ ([] : List Instr), Fine E isSet i := fun _ hi => absurd hi List.not_mem_nil

theorem fine_of_die {isSet : Bool} {i : Instr} (h : i = .send .die) : Fine E isSet i := by
  subst h
  exact ⟨fun _ => id, Instr.noConfusion⟩

theorem fine_of_not {isSet : Bool} {i : Instr} (hset : ¬ i.undoes) (httl : i ≠ .ttlSchedule) : Fine E isSet i :=
  ⟨fun _ => hset, fun h => absurd h httl⟩

/-- an instruction that is fine and passes its check is safe -/
theorem Fine.safe {i : Instr} (hfine : Fine E s.stop.isSet i) (hinv : Inv s) (hcheck : SafeCheck E s i) :
    SafeInstr E s i := by
  cases i with
  | write u =>
    intro hset
    cases hu : u.actual with
    | none => simp [ObjPsStatusUpdate.set, hu, hinv.actual hset]
    | some status =>
      by_contra hne
      exact hfine.1 hset ⟨status, hu, by simpa [ObjPsStatusUpdate.set, hu] using hne⟩
  | startContainer id => exact hcheck
  | ttlSchedule => exact hfine.2 rfl
  | _ => trivial

theorem safeHead_of_fine {ok : Bool} {code : List Instr} (hfine : ∀ i ∈ code, Fine E s.stop.isSet i) (hinv : Inv s)
    (hcheck : ∀ i ∈ code.head?, ok = true → SafeCheck E s i) : SafeHead E ok s code :=
  fun i hi hok => (hfine i (List.mem_of_mem_head? hi)).safe hinv (hcheck i hi hok)

/-- **A checked step is harmless** where nothing is under way that undoes the stop. -/
theorem Quiet.harmless (h : Quiet E s) (hinv : Inv s) {o : Op} (hcheck : Checked E s o) : Harmless E s o := by
  cases o with
  | stop ok => exact hcheck.1
  | docker ok => exact safeHead_of_fine (fun i hi => h i (mem_pending.2 (.inl hi))) hinv hcheck
  | loop ok => exact safeHead_of_fine (fun i hi => h i (mem_pending.2 (.inr (.inl hi)))) hinv hcheck.1
  | thread i ok =>
    intro t ht
    have hmem : t ∈ s.threads := List.mem_of_getElem? ht
    exact safeHead_of_fine (fun i hi => h i (mem_pending.2 (.inr (.inr ⟨t, hmem, hi⟩)))) hinv fun c hc => (hcheck t ht c hc).1
  | restarts id => exact hcheck
  | dies | secretUpdated => trivial

/-! ## Steps -/

theorem pending_endContainer (s : St) (id : ContainerId) : (endContainer E s id).pending = s.pending := by
  unfold endContainer
  split
  · split_ifs <;> rfl
  · rfl

theorem pending_startContainer (s : St) (id : ContainerId) : (startContainer s id).pending = s.pending := by
  unfold startContainer
  split
  · split_ifs <;> rfl
  · rfl

/-- what a step of the code leaves under way is the rest, and the event of a death in a thread of its own -/
theorem exec_frame (s : St) (i : Instr) : (exec E s i).1.stop = s.stop ∧
    ∀ j ∈ (exec E s i).1.pending, j ∈ s.pending ∨ j = .send .die := by
  have same : ∀ s' : St, (exec E s i).1 = s' → s'.stop = s.stop → s'.pending = s.pending →
      (exec E s i).1.stop = s.stop ∧ ∀ j ∈ (exec E s i).1.pending, j ∈ s.pending ∨ j = .send .die := by
    intro s' heq hstop hpending
    rw [heq, hpending]
    exact ⟨hstop, fun j hj => .inl hj⟩
  cases i with
  | write | send | insertProcess | deleteProcess | stopProcesses | ttlStatus | ttlSchedule | panic => exact same _ rfl rfl rfl
  | setActual | handle | waitContainer | ttlCount =>
    refine same s ?_ rfl rfl
    simp only [exec]
    split <;> rfl
  | refresh id =>
    cases hc : s.containers id with
    | none => exact same s (by simp [exec, hc]) rfl rfl
    | some c =>
      have hexec : (exec E s (.refresh id)).1 = { s with processes := s.processes.map fun p =>
          if p.key = id then { p with data := c.inspect p.key, data_id := c.inspect_key p } else p } := by
        simp only [exec, hc]
      exact same _ hexec rfl rfl
  | createContainer id c =>
    by_cases hc : (s.containers id).isSome
    · exact same s (by simp [exec, hc]) rfl rfl
    · exact same (setContainer s id (some { c with running := false })) (by simp [exec, hc]) rfl rfl
  | startContainer id =>
    by_cases hc : (s.containers id).isSome
    · exact same (startContainer s id) (by simp [exec, onContainer, hc]) (startContainer_frame s id).1
        (pending_startContainer s id)
    · exact same s (by simp [exec, onContainer, hc]) rfl rfl
  | stopContainer id =>
    by_cases hc : (s.containers id).isSome
    · exact same (endContainer E s id) (by simp [exec, onContainer, hc]) (endContainer_frame s id).1
        (pending_endContainer s id)
    · exact same s (by simp [exec, onContainer, hc]) rfl rfl
  | removeContainer id =>
    by_cases hc : (s.containers id).isSome
    · exact same (removeContainer E s id) (by simp [exec, onContainer, hc]) (endContainer_frame s id).1
        (pending_endContainer s id)
    · exact same s (by simp [exec, onContainer, hc]) rfl rfl
  | emitDie =>
    refine ⟨rfl, fun j hj => ?_⟩
    obtain hj | hj | ⟨t, ht, hj⟩ := mem_pending.1 hj
    · exact .inl (mem_pending.2 (.inl hj))
    · exact .inl (mem_pending.2 (.inr (.inl hj)))
    · obtain ht | ht := List.mem_append.1 ht
      · exact .inl (mem_pending.2 (.inr (.inr ⟨t, ht, hj⟩)))
      · obtain rfl := List.mem_singleton.1 ht
        exact .inr (List.mem_singleton.1 hj)

/-- what the code goes on with is fine if its check lets nothing through -/
theorem exec_next {i : Instr} (hfine : Fine E s.stop.isSet i) (hcheck : SafeCheck E s i) {code : List Instr}
    (h : (exec E s i).2 = .cont code) : ∀ j ∈ code, Fine E s.stop.isSet j := by
  cases i with
  | setActual status =>
    simp only [exec] at h
    split at h
    · next u hu =>
      cases h
      have hactual : u.actual = some status := by
        simp only [Writer.update] at hu
        split_ifs at hu
        cases hu
        rfl
      intro j hj
      obtain rfl := List.mem_singleton.1 hj
      refine ⟨fun hset hundoes => hfine.1 hset ?_, Instr.noConfusion⟩
      obtain ⟨status', hmem, hne⟩ := hundoes
      rw [hactual] at hmem
      cases hmem
      exact hne
    · cases h
      exact fine_nil
  | handle e =>
    simp only [exec] at h
    split at h
    · next status hsets =>
      cases h
      intro j hj
      obtain rfl := List.mem_singleton.1 hj
      refine ⟨fun hset => ?_, Instr.noConfusion⟩
      cases hsets.symm.trans (hcheck hset)
    · cases h
      exact fine_nil
  | ttlCount =>
    simp only [exec] at h
    split at h
    · cases h
      intro j hj
      obtain rfl := List.mem_singleton.1 hj
      exact fine_of_not id Instr.noConfusion
    · next total failed success running hcount =>
      by_cases hrun : running = 0
      · obtain ⟨hunset, httl⟩ := hcheck _ hcount hrun
        exact fun j _ => ⟨fun hset => absurd hset (by simp [hunset]), fun _ => httl⟩
      · rw [if_pos hrun] at h
        cases h
  | stopProcesses =>
    cases h
    intro j hj
    obtain ⟨p, -, rfl⟩ := List.mem_map.1 hj
    exact fine_of_not id Instr.noConfusion
  | waitContainer container =>
    simp only [exec] at h
    split at h
    · cases h
      intro j hj
      split_ifs at hj
      · obtain rfl := List.mem_singleton.1 hj
        exact fine_of_not id Instr.noConfusion
      · exact absurd hj List.not_mem_nil
    · cases h
  | refresh id =>
    simp only [exec] at h
    split at h
    · cases h
      exact fine_nil
    · cases h
  | createContainer id c =>
    simp only [exec] at h
    split_ifs at h
    cases h
    exact fine_nil
  | ttlStatus =>
    simp only [exec] at h
    split_ifs at h
    cases h
    exact fine_nil
  | startContainer id | stopContainer id | removeContainer id =>
    simp only [exec, onContainer] at h
    split_ifs at h
    cases h
    exact fine_nil
  | panic =>
    cases h
    intro j hj
    obtain rfl := List.mem_singleton.1 hj
    exact fine_of_not id Instr.noConfusion
  | write | send | emitDie | insertProcess | deleteProcess | ttlSchedule =>
    cases h
    exact fine_nil

/-- a step of the code, or a call that fails -/
theorem execOr_spec (ok : Bool) {i : Instr} {rest : List Instr} (hfine : ∀ j ∈ i :: rest, Fine E s.stop.isSet j)
    (hcheck : ok = true → SafeCheck E s i) : (execOr E ok s i).1.stop = s.stop ∧
      (∀ j ∈ (execOr E ok s i).1.pending, j ∈ s.pending ∨ j = .send .die) ∧
      ∀ j ∈ advance rest (execOr E ok s i).2, Fine E s.stop.isSet j := by
  cases ok with
  | false => exact ⟨rfl, fun j hj => .inl hj, fun j hj => absurd hj List.not_mem_nil⟩
  | true =>
    obtain ⟨hstop, hpending⟩ := exec_frame (E := E) s i
    refine ⟨hstop, hpending, ?_⟩
    show ∀ j ∈ advance rest (exec E s i).2, _
    cases hn : (exec E s i).2 with
    | cont code =>
      intro j hj
      obtain hj | hj := List.mem_append.1 hj
      · exact exec_next (hfine i List.mem_cons_self) (hcheck rfl) hn j hj
      · exact hfine j (List.mem_cons_of_mem _ hj)
    | ret | err => exact fine_nil

/-- what is under way afterwards was so before, or is fine -/
theorem Quiet.of_pending (h : Quiet E s) (hset : s'.stop.isSet = true → s.stop.isSet = true)
    (hpending : ∀ i ∈ s'.pending, i ∈ s.pending ∨ Fine E s'.stop.isSet i) : Quiet E s' := by
  intro i hi
  obtain hold | hfine := hpending i hi
  · exact ⟨fun hs => (h i hold).1 (hset hs), (h i hold).2⟩
  · exact hfine

/-- where the status is not set, only a deletion would matter -/
theorem Quiet.of_unset (h : Quiet E s) (hunset : s'.stop.isSet = false)
    (hpending : ∀ i ∈ s'.pending, i ∈ s.pending ∨ i ≠ .ttlSchedule) : Quiet E s' := by
  intro i hi
  refine ⟨fun hset => ?_, fun heq => ?_⟩
  · rw [hunset] at hset
    cases hset
  · exact (h i ((hpending i hi).resolve_right fun hne => hne heq)).2 heq

/-- the status is set while nothing is past its check -/
theorem Quiet.of_set (h : Quiet E s) (hno : ∀ i ∈ s.pending, ¬ i.undoes) (hpending : s'.pending = s.pending) :
    Quiet E s' := by
  intro i hi
  rw [hpending] at hi
  exact ⟨fun _ => hno i hi, (h i hi).2⟩

/-- a thread that is new -/
theorem mem_pending_thread {t : Thread} {i : Instr} (hi : i ∈ s'.pending) (hdocker : s'.docker = s.docker)
    (hloop : s'.loop = s.loop) (hthreads : s'.threads = s.threads ++ [t]) : i ∈ s.pending ∨ i ∈ t.code := by
  rw [mem_pending, hdocker, hloop, hthreads] at hi
  obtain hi | hi | ⟨t', ht', hi⟩ := hi
  · exact .inl (mem_pending.2 (.inl hi))
  · exact .inl (mem_pending.2 (.inr (.inl hi)))
  · obtain ht' | ht' := List.mem_append.1 ht'
    · exact .inl (mem_pending.2 (.inr (.inr ⟨t', ht', hi⟩)))
    · obtain rfl := List.mem_singleton.1 ht'
      exact .inr hi

theorem Quiet.stopStep (h : Quiet E s) {ok : Bool} (hset : s.stop.sets s.row → ∀ i ∈ s.pending, ¬ i.undoes)
    (hemit : s.stop = .emit → ok = true) : Quiet E (stopStep E ok s) := by
  have herror : Quiet E (stopStep.onError s) := by
    refine h.of_unset rfl fun i hi => ?_
    obtain hi | hi := mem_pending_thread (s := s) hi rfl rfl rfl
    · exact .inl hi
    · obtain rfl := List.mem_singleton.1 hi
      exact .inr Instr.noConfusion
  have hunset : ∀ s' : St, s'.stop.isSet = false → s'.pending = s.pending → Quiet E s' := fun s' hs' hp =>
    h.of_unset hs' fun i hi => .inl (hp ▸ hi)
  cases hp : s.stop with
  | read =>
    cases ok with
    | false =>
      simp only [Stopped.stopStep, hp]
      exact hunset _ rfl rfl
    | true =>
      simp only [Stopped.stopStep, hp]
      split
      · exact hunset _ rfl rfl
      · next hu =>
        refine h.of_set (hset ?_) rfl
        simpa [hp, StopPhase.sets, Writer.update] using hu
  | write u => cases ok <;> simp only [Stopped.stopStep, hp] <;> exact hunset _ rfl rfl
  | send => cases ok <;> simp only [Stopped.stopStep, hp] <;> exact hunset _ rfl rfl
  | list =>
    cases ok with
    | false => simpa only [Stopped.stopStep, hp] using herror
    | true =>
      simp only [Stopped.stopStep, hp]
      exact hunset _ rfl rfl
  | stopping ids =>
    cases ids with
    | nil =>
      have hstep : Stopped.stopStep E ok s = { s with stop := .setActual } := by cases ok <;> simp [Stopped.stopStep, hp]
      rw [hstep]
      exact hunset _ rfl rfl
    | cons id ids =>
      cases ok with
      | false => simpa only [Stopped.stopStep, hp] using herror
      | true =>
        simp only [Stopped.stopStep, hp]
        split_ifs
        · exact hunset _ rfl (pending_endContainer s id)
        · exact herror
  | setActual =>
    cases ok with
    | false => simpa only [Stopped.stopStep, hp] using herror
    | true =>
      simp only [Stopped.stopStep, hp]
      split
      · exact hunset _ rfl rfl
      · next hu =>
        refine h.of_set (hset ?_) rfl
        simpa [hp, StopPhase.sets, Writer.update] using hu
  | setWrite u =>
    cases ok with
    | false => simpa only [Stopped.stopStep, hp] using herror
    | true =>
      simp only [Stopped.stopStep, hp]
      exact h.of_set (hset (hp ▸ trivial)) rfl
  | emit =>
    obtain rfl := hemit hp
    simp only [Stopped.stopStep, hp]
    exact h.of_pending (fun _ => by rw [hp]; rfl) fun i hi => .inl hi
  | queued | stopped | failed =>
    simpa only [Stopped.stopStep, hp] using h

theorem Quiet.dockerStep (h : Quiet E s) {ok : Bool} (hcheck : ∀ i ∈ s.docker.head?, ok = true → SafeCheck E s i) :
    Quiet E (dockerStep E ok s) := by
  unfold Stopped.dockerStep
  cases hd : s.docker with
  | nil =>
    cases s.messages with
    | nil => exact h
    | cons m messages =>
      refine h.of_pending id fun i hi => ?_
      obtain hi | hi := mem_pending.1 hi
      · refine .inr ?_
        cases m <;> simp only [execDocker, List.mem_cons, List.not_mem_nil, or_false] at hi <;>
          rcases hi with rfl | rfl | rfl <;> exact fine_of_not id Instr.noConfusion
      · exact .inl (mem_pending.2 (.inr hi))
  | cons i rest =>
    obtain ⟨hstop, hpending, hfine⟩ := execOr_spec ok (fun j hj => h j (mem_pending.2 (.inl (hd ▸ hj))))
      (hcheck i (by simp [hd]))
    refine h.of_pending (fun hs => hstop ▸ hs) fun j hj => ?_
    obtain hj | hj := mem_pending.1 hj
    · refine .inr ?_
      show Fine E (execOr E ok s i).1.stop.isSet j
      rw [hstop]
      exact hfine j hj
    · exact (hpending j (mem_pending.2 (.inr hj))).imp_right fine_of_die

theorem Quiet.loopStep (h : Quiet E s) {ok : Bool} (hcheck : ∀ i ∈ s.loop.head?, ok = true → SafeCheck E s i)
    (htask : ∀ n, s.channel.head? = some (.task n) → ∀ i ∈ E.task n, Fine E s.stop.isSet i) :
    Quiet E (loopStep E ok s) := by
  unfold Stopped.loopStep
  cases hl : s.loop with
  | nil =>
    cases hc : s.channel with
    | nil => exact h
    | cons e channel =>
      dsimp only
      split_ifs
      · cases e with
        | stopping =>
          simp only [execEvent]
          split
          · exact h.of_unset rfl fun i hi => .inl hi
          · exact h
        | task n =>
          refine h.of_pending id fun i hi => ?_
          exact (mem_pending_thread (s := s) hi rfl rfl rfl).imp_right (htask n (by rw [hc]; rfl) i)
        | die =>
          refine h.of_pending id fun i hi => ?_
          obtain hi | hi | hi := mem_pending.1 hi
          · exact .inl (mem_pending.2 (.inl hi))
          · refine .inr ?_
            change i ∈ (if E.kind = .job then jobTtl else []) at hi
            split_ifs at hi
            · simp only [jobTtl, List.mem_cons, List.not_mem_nil, or_false] at hi
              rcases hi with rfl | rfl <;> exact fine_of_not id Instr.noConfusion
            · exact absurd hi List.not_mem_nil
          · exact .inl (mem_pending.2 (.inr (.inr hi)))
      · exact h
  | cons i rest =>
    obtain ⟨hstop, hpending, hfine⟩ := execOr_spec ok (fun j hj => h j (mem_pending.2 (.inr (.inl (hl ▸ hj)))))
      (hcheck i (by simp [hl]))
    refine h.of_pending (fun hs => hstop ▸ hs) fun j hj => ?_
    have hold : j ∈ (execOr E ok s i).1.pending → j ∈ s.pending ∨ Fine E (execOr E ok s i).1.stop.isSet j := fun hj =>
      (hpending j hj).imp_right fine_of_die
    obtain hj | hj | hj := mem_pending.1 hj
    · exact hold (mem_pending.2 (.inl hj))
    · refine .inr ?_
      show Fine E (execOr E ok s i).1.stop.isSet j
      rw [hstop]
      exact hfine j hj
    · exact hold (mem_pending.2 (.inr (.inr hj)))

theorem Quiet.threadStep (h : Quiet E s) {i : ℕ} {ok : Bool}
    (hcheck : ∀ t ∈ s.threads[i]?, ∀ c ∈ t.code.head?, (ok = true → SafeCheck E s c) ∧
      (t.task = true → s.stop.isSet = true → (execOr E ok s c).2 ≠ .err)) : Quiet E (threadStep E i ok s) := by
  unfold Stopped.threadStep
  cases ht : s.threads[i]? with
  | none => exact h
  | some t =>
    dsimp only
    cases hcode : t.code with
    | nil => exact h
    | cons c rest =>
      obtain ⟨hsafe, herr⟩ := hcheck t ht c (by simp [hcode])
      have hmem : t ∈ s.threads := List.mem_of_getElem? ht
      obtain ⟨hstop, hpending, hfine⟩ := execOr_spec ok
        (fun j hj => h j (mem_pending.2 (.inr (.inr ⟨t, hmem, hcode ▸ hj⟩)))) hsafe
      have hold : ∀ j ∈ (execOr E ok s c).1.pending, j ∈ s.pending ∨ Fine E (execOr E ok s c).1.stop.isSet j :=
        fun j hj => (hpending j hj).imp_right fine_of_die
      refine h.of_pending (fun hs => hstop ▸ hs) fun j hj => ?_
      obtain hj | hj | ⟨t', ht', hj⟩ := mem_pending.1 hj
      · exact hold j (mem_pending.2 (.inl hj))
      · exact hold j (mem_pending.2 (.inr (.inl hj)))
      · obtain ht' | rfl := List.mem_or_eq_of_mem_set ht'
        · exact hold j (mem_pending.2 (.inr (.inr ⟨t', ht', hj⟩)))
        · refine .inr ?_
          show Fine E (execOr E ok s c).1.stop.isSet j
          rw [hstop]
          cases hn : (execOr E ok s c).2 with
          | cont code =>
            rw [hn] at hj hfine
            exact hfine j hj
          | ret =>
            rw [hn] at hj hfine
            exact hfine j hj
          | err =>
            -- a task that fails goes on with `on_error`, which it may where the status is still to be set
            rw [hn] at hj
            by_cases htask : t.task = true
            · have hunset : s.stop.isSet = false := Bool.not_eq_true _ ▸ fun hs => herr htask hs hn
              simp only [Thread.next, htask, if_true, List.mem_singleton] at hj
              subst hj
              exact ⟨fun hs => absurd hs (by simp [hunset]), Instr.noConfusion⟩
            · simp only [Thread.next, htask] at hj
              exact absurd hj List.not_mem_nil

/-- **A checked step leaves nothing under way** that undoes the stop. -/
theorem Quiet.step (h : Quiet E s) {o : Op} (hcheck : Checked E s o) : Quiet E (step E s o) := by
  cases o with
  | stop ok => exact h.stopStep hcheck.2.1 hcheck.2.2
  | docker ok => exact h.dockerStep hcheck
  | loop ok => exact h.loopStep hcheck.1 hcheck.2
  | thread i ok => exact h.threadStep hcheck
  | dies id =>
    refine h.of_pending (fun hs => ?_) fun i hi => .inl ?_
    · rwa [show (Stopped.step E s (.dies id)).stop = s.stop from (endContainer_frame s id).1] at hs
    · rwa [show (Stopped.step E s (.dies id)).pending = s.pending from pending_endContainer s id] at hi
  | restarts id =>
    refine h.of_pending (fun hs => ?_) fun i hi => .inl ?_
    · rwa [show (Stopped.step E s (.restarts id)).stop = s.stop from (startContainer_frame s id).1] at hs
    · rwa [show (Stopped.step E s (.restarts id)).pending = s.pending from pending_startContainer s id] at hi
  | secretUpdated n =>
    refine h.of_unset hcheck fun i hi => ?_
    obtain hi | hi := mem_pending_thread (s := s) hi rfl rfl rfl
    · exact .inl hi
    · refine .inr ?_
      rintro rfl
      simp at hi

/-! ## Result -/

/-- **A stopped object stays stopped** in every run whose checks let nothing through that undoes the stop, if no deletion was
under way when the stop request came. -/
theorem stays_stopped_of_checked (E : Env) (s : St) (ops : List Op) (hdeletion : .ttlSchedule ∈ s.pending → E.ttl = none)
    (hops : Along (step E) (Checked E) (requested s) ops) (hs : Settled (run (step E) (requested s) ops)) :
    StaysStopped (run (step E) (requested s) ops) := by
  have hquiet : Quiet E (requested s) := fun i hi => ⟨fun hset => (by cases hset), fun heq => hdeletion (heq ▸ hi)⟩
  have hinv : Inv (run (step E) (requested s) ops) ∧ Quiet E (run (step E) (requested s) ops) :=
    inv_run (I := fun s => Inv s ∧ Quiet E s)
      (fun _ o h hcheck => ⟨(harmless_iff h.1 o).2 (h.2.harmless h.1 hcheck), h.2.step hcheck⟩) ⟨inv_requested s, hquiet⟩ hops
  exact hinv.1.staysStopped hs

end Nanocl.Stopped
