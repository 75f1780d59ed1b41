/-
One run of a job: the start task, docker's reports on the containers, and `job_ttl`, which decides that the job is done.

A start request is made while nothing is under way for the job. Its task creates the containers if the job has no process
row, and runs them one after the other, each in turn started and waited for. Docker ends containers and starts them again
as it likes, and reports it to the thread of `exec_docker`, which emits the death of a container before it inspects the
container and updates its row. On each death the event loop runs `job_ttl`: if no row shows a container that runs or never
ran, the job has come to its end, and its deletion is scheduled if it has a time to live. All of them take one step at a
time, in any order, and each call may fail. Nobody stops or deletes the job or removes a container of it, and no other start
request comes.

- `endsSoundly_of_fresh`, `endsSoundly_of_single`: in a run of containers that never ran before, and in a run of one
  container, the job comes to its end only after each of its containers has run and exited in this run.
- `ends_early`: any other run has a schedule in which it comes to its end too early.
- `ends_soundly_iff`: so a job ends soundly under every schedule exactly in these runs.
-/
import Nanocl.Lib.Transition
import Nanocl.Runtime.World
import Nanocl.Status.Counts

namespace Nanocl.JobCompletion

open Nanocl.Lib Nanocl.Status

/-! ## Model -/

/-- the job and the names under which it is stored -/
structure Env where
  name : String
  nodeName : String
  /-- `job.containers.len()` -/
  count : ℕ
  /-- the name and the date of creation of the container of this index -/
  containerName : ℕ → String
  createdAt : ℕ → ℤ

/-- the finish time of a container that never ran -/
def zeroTime : String := "0001-01-01T00:00:00Z"

/-- a container as docker creates it -/
def created : ContainerState := ⟨some false, some false, some zeroTime, some 0, some ""⟩

/-- the process row of the container of index `i` -/
def Env.row (E : Env) (i : ℕ) (state : ContainerState) : ProcessDb where
  key := i
  name := E.containerName i
  kind := .job
  kindKey := E.name
  nodeName := E.nodeName
  createdAt := E.createdAt i
  data := ⟨some i, some state, [("io.nanocl.j", E.name)]⟩
  data_id := rfl

/-- what docker reports about a container -/
inductive EventMessage where
  | start (i : ℕ)
  | die (i : ℕ)
deriving DecidableEq

/-- `job::start` -/
inductive StartPhase where
  /-- it is about to read the process rows -/
  | read
  /-- `create_instances`: the next index -/
  | create (i : ℕ)
  /-- `update_actual_status`: its read, and its update -/
  | setStart (ids : List ℕ)
  | writeStart (ids : List ℕ)
  /-- the containers that are still to be started -/
  | run (ids : List ℕ)
  | wait (i : ℕ) (ids : List ℕ)
  /-- `on_error` -/
  | setFail
  | writeFail
  | done
deriving DecidableEq

/-- `exec_docker` -/
inductive Handler where
  | idle
  /-- the read of the status of the job -/
  | status (i : ℕ) (die : Bool)
  /-- `spawn_emit_event` for the death of a container -/
  | emit (i : ℕ)
  | inspect (i : ℕ)
  | update (i : ℕ) (state : ContainerState)
deriving DecidableEq

/-- `job_ttl` -/
inductive TtlPhase where
  | idle
  /-- its check of the status of the job -/
  | status
  /-- its check of the instances -/
  | count
  /-- the job is done: the read and the update of its status -/
  | set (status : ObjPsStatusKind)
  | write (status : ObjPsStatusKind)
  /-- the deletion after the time to live -/
  | schedule
  | panicked
deriving DecidableEq

structure St where
  /-- the container of each index -/
  containers : ℕ → Option ContainerState
  processes : List ProcessDb
  actual : ObjPsStatusKind
  start : StartPhase
  messages : List EventMessage
  handler : Handler
  /-- deaths of containers on their way to the event loop -/
  dies : ℕ
  loop : TtlPhase
  /-- the containers that have run and exited since the start request -/
  exited : ℕ → Bool

variable (E : Env)

/-! ### Docker -/

def setContainer (s : St) (i : ℕ) (state : ContainerState) : St :=
  { s with containers := Function.update s.containers i (some state) }

/-- a container starts, if it does not run; docker reports it -/
def startContainer (s : St) (i : ℕ) : St :=
  match s.containers i with
  | some state =>
    if state.running = some true then s
    else
      { setContainer s i { state with running := some true, exitCode := some 0, error := some "" } with
        messages := s.messages ++ [.start i] }
  | none => s

/-- docker starts a container again that has come to an end -/
def restartContainer (s : St) (i : ℕ) : St :=
  match s.containers i with
  | some state =>
    if state.restarting = some true ∨ (state.running = some false ∧ state.finishedAt ≠ some zeroTime) then
      let state : ContainerState :=
        { state with running := some true, restarting := some false, exitCode := some 0, error := some "" }
      { setContainer s i state with messages := s.messages ++ [.start i] }
    else s
  | none => s

/-- a container that runs comes to an end; docker will start it again, or it will not -/
def endContainer (s : St) (i : ℕ) (exitCode : ℤ) (finishedAt : String) (restarting : Bool) : St :=
  match s.containers i with
  | some state =>
    if state.running = some true ∧ state.restarting = some false ∧ finishedAt ≠ zeroTime then
      { setContainer s i ⟨some restarting, some restarting, some finishedAt, some exitCode, state.error⟩ with
        messages := s.messages ++ [.die i]
        exited := Function.update s.exited i true }
    else s
  | none => s

/-! ### The daemon -/

/-- the start task -/
def startStep (s : St) (ok : Bool) : St :=
  match s.start, ok with
  | .read, true =>
    match ProcessDb.newest100 s.processes with
    | [] => { s with start := .create 0 }
    | l => { s with start := .setStart (l.map ProcessDb.key) }
  | .create i, ok =>
    if i < E.count then
      if ok then
        { setContainer s i created with processes := s.processes ++ [E.row i created], start := .create (i + 1) }
      else { s with start := .setFail }
    else { s with start := .setStart (List.range E.count) }
  | .setStart ids, true => { s with start := if s.actual = .start then .run ids else .writeStart ids }
  | .writeStart ids, true => { s with actual := .start, start := .run ids }
  | .run [], _ => { s with start := .done }
  -- whether the start succeeds is not looked at
  | .run (i :: ids), ok => { (if ok then startContainer s i else s) with start := .wait i ids }
  | .wait i ids, true =>
    match s.containers i with
    | none => { s with start := .setFail }
    | some state =>
      if state.running = some true then s
      else { s with start := if state.exitCode = some 0 then .run ids else .setFail }
  | .read, false | .setStart _, false | .writeStart _, false | .wait _ _, false => { s with start := .setFail }
  | .setFail, true => { s with start := if s.actual = .fail then .done else .writeFail }
  | .writeFail, true => { s with actual := .fail, start := .done }
  | .setFail, false | .writeFail, false => { s with start := .done }
  | .done, _ => s

/-- the handler takes an event; it does not look at the status for the death of a temporary or an init container -/
def Env.take (E : Env) : EventMessage → Handler
  | .start i => .status i false
  | .die i =>
    let name := (E.containerName i).toList
    if "tmp-".toList.isPrefixOf name || "init-".toList.isPrefixOf name then .emit i else .status i true

/-- the thread of docker's events -/
def handleStep (s : St) (ok : Bool) : St :=
  match s.handler with
  | .idle =>
    match s.messages with
    | [] => s
    | m :: messages => { s with messages := messages, handler := E.take m }
  | .status i die => { s with handler := if ok then (if die then .emit i else .inspect i) else .idle }
  | .emit i => { s with dies := if ok then s.dies + 1 else s.dies, handler := .inspect i }
  | .inspect i =>
    match s.containers i, ok with
    | some state, true => { s with handler := .update i state }
    | _, _ => { s with handler := .idle }
  | .update i state =>
    { s with
      processes := if ok then s.processes.map fun p => if p.key = i then E.row i state else p else s.processes
      handler := .idle }

/-- the event loop -/
def loopStep (s : St) (ok : Bool) : St :=
  match s.loop, ok with
  | .idle, _ => if s.dies = 0 then s else { s with dies := s.dies - 1, loop := .status }
  | .status, true => { s with loop := if s.actual = .finish ∨ s.actual = .fail then .idle else .count }
  | .count, true =>
    match countStatus (ProcessDb.newest100 s.processes) with
    | none => { s with loop := .panicked }
    | some (_, failed, _, running) =>
      { s with loop := if running ≠ 0 then .idle else .set (if failed > 0 then .fail else .finish) }
  | .set status, true => { s with loop := if s.actual = status then .schedule else .write status }
  | .write status, true => { s with actual := status, loop := .schedule }
  | .schedule, _ => { s with loop := .idle }
  | .status, false | .count, false | .set _, false | .write _, false => { s with loop := .idle }
  | .panicked, _ => s

inductive Op where
  | start (ok : Bool)
  | handle (ok : Bool)
  | loop (ok : Bool)
  | ends (i : ℕ) (exitCode : ℤ) (finishedAt : String) (restarting : Bool)
  | restarts (i : ℕ)

def step (s : St) : Op → St
  | .start ok => startStep E s ok
  | .handle ok => handleStep E s ok
  | .loop ok => loopStep s ok
  | .ends i exitCode finishedAt restarting => endContainer s i exitCode finishedAt restarting
  | .restarts i => restartContainer s i

/-! ## Property -/

/-- the row shows a container that never ran -/
def Untouched (p : ProcessDb) : Prop := NeverStarted p.data

instance (p : ProcessDb) : Decidable (Untouched p) :=
  inferInstanceAs (Decidable ((p.data.state.getD .default).finishedAt = some zeroTime))

/-- nothing is under way, and the rows are those of the first containers of the job, each as it is, none of which runs -/
structure AtRest (s : St) : Prop where
  messages : s.messages = []
  handler : s.handler = .idle
  dies : s.dies = 0
  loop : s.loop = .idle
  keys : (s.processes.map ProcessDb.key).Perm (List.range s.processes.length)
  length : s.processes.length ≤ E.count
  rows : ∀ p ∈ s.processes, ∃ t code error, p = E.row p.key ⟨some false, some false, some t, some code, error⟩ ∧
    s.containers p.key = some ⟨some false, some false, some t, some code, error⟩
  containers : ∀ i, s.processes.length ≤ i → s.containers i = none

/-- `emit_starting`, and its event arrives -/
def requested (s : St) : St := { s with actual := .starting, start := .read, exited := fun _ => false }

/-- `job_ttl` brings the job to its end -/
def TtlPhase.ending : TtlPhase → Bool
  | .set _ | .write _ | .schedule => true
  | _ => false

/-- the job comes to its end only if each of its containers has run and exited in this run -/
def EndsSoundly (s : St) : Prop := s.loop.ending = true → ∀ i < E.count, s.exited i = true

/-! ## The count of the instances -/

/-- the container came to an end some time -/
def Ran (state : ContainerState) : Prop := state.finishedAt ≠ some zeroTime ∨ state.restarting = some true

/-- an instance that `count_status` does not take for running has come to an end -/
theorem ran_of_not_running {i : ℕ} {state : ContainerState} (h : ¬ CountsRunning (E.row i state).data) : Ran state := by
  by_cases hr : Restarts (E.row i state).data
  · refine .inr ?_
    cases hs : state.restarting with
    | none => simp [Restarts, Env.row, hs] at hr
    | some b => simpa [Restarts, Env.row, hs] using hr
  · exact .inl fun hf => h ⟨hr, .inr hf⟩

theorem countInstance_exited_state {i : ℕ} {t : String} {code : ℤ} {error : Option String} (ht : t ≠ zeroTime) :
    ∃ f g, countInstance (E.row i ⟨some false, some false, some t, some code, error⟩).data = some (f, g, 0) := by
  have ht' : t ≠ "0001-01-01T00:00:00Z" := ht
  by_cases hcode : code = 0 <;> cases error <;> simp [countInstance, Env.row, ht', hcode]

/-- if nothing is added to the running instances, none of them is one -/
theorem foldlM_running {l : List ProcessDb} {n m : ℕ × ℕ × ℕ} (h : l.foldlM countStep n = some m) :
    n.2.2 ≤ m.2.2 ∧ (m.2.2 = n.2.2 → ∀ p ∈ l, ¬ CountsRunning p.data) := by
  induction l generalizing n with
  | nil =>
    obtain rfl : n = m := by simpa using h
    exact ⟨le_refl _, by simp⟩
  | cons p l ih =>
    rw [List.foldlM_cons] at h
    obtain ⟨k, hk, hrest⟩ := Option.bind_eq_some_iff.1 h
    obtain ⟨hle, hall⟩ := ih hrest
    obtain ⟨⟨f, s, r⟩, hone, hkeq⟩ := Option.bind_eq_some_iff.1 hk
    obtain rfl : (n.1 + f, n.2.1 + s, n.2.2 + r) = k := by simpa using hkeq
    have hle' : n.2.2 + r ≤ m.2.2 := hle
    refine ⟨by omega, fun heq => List.forall_mem_cons.2 ⟨fun hrun => ?_, hall ?_⟩⟩
    · rw [(countInstance_running p.data).2 hrun] at hone
      obtain rfl : 1 = r := congrArg (·.2.2) (Option.some.inj hone)
      omega
    · change m.2.2 = n.2.2 + r
      omega

/-- `count_status` finds nothing running exactly if no row shows a container that runs or never ran -/
theorem countStatus_running {l : List ProcessDb} {total failed success : ℕ}
    (h : countStatus l = some (total, failed, success, 0)) : ∀ p ∈ l, ¬ CountsRunning p.data := by
  rw [countStatus_eq, Option.map_eq_some_iff] at h
  obtain ⟨n, hn, heq⟩ := h
  have hzero : n.2.2 = 0 := congrArg (·.2.2.2) heq
  exact (foldlM_running hn).2 hzero

/-- instances that add nothing to the running ones -/
theorem foldlM_not_running {l : List ProcessDb} (h : ∀ p ∈ l, ∃ f s, countInstance p.data = some (f, s, 0))
    (n : ℕ × ℕ × ℕ) : ∃ f s, l.foldlM countStep n = some (f, s, n.2.2) := by
  induction l generalizing n with
  | nil => exact ⟨n.1, n.2.1, rfl⟩
  | cons p l ih =>
    obtain ⟨f, s, hone⟩ := h p (List.mem_cons_self ..)
    obtain ⟨f', s', hrest⟩ := ih (fun q hq => h q (List.mem_cons_of_mem _ hq)) (n.1 + f, n.2.1 + s, n.2.2)
    refine ⟨f', s', ?_⟩
    rw [List.foldlM_cons]
    simp only [countStep, hone, Option.bind_eq_bind, Option.bind_some, Option.pure_def, Nat.add_zero]
    exact hrest

theorem countStatus_not_running {l : List ProcessDb} (h : ∀ p ∈ l, ∃ f s, countInstance p.data = some (f, s, 0)) :
    ∃ failed success, countStatus l = some (l.length, failed, success, 0) := by
  obtain ⟨f, s, hfold⟩ := foldlM_not_running h (0, 0, 0)
  refine ⟨f, s, ?_⟩
  rw [countStatus_eq, hfold]
  rfl

/-! ## Runs of containers that never ran -/

/-- each container of the job has its row -/
def Complete (s : St) : Prop := (s.processes.map ProcessDb.key).Perm (List.range E.count)

/-- the creation of the containers has not come to its end, and nothing has run -/
structure Creating (s : St) : Prop where
  containers : ∀ i state, s.containers i = some state → state = created
  messages : s.messages = []
  handler : s.handler = .idle
  dies : s.dies = 0
  loop : s.loop = .idle
  start : (s.start = .read ∧ s.processes = []) ∨
    (∃ i ≤ E.count, s.start = .create i ∧ s.processes.map ProcessDb.key = List.range i) ∨
    s.start = .setFail ∨ s.start = .writeFail ∨ s.start = .done

/-- whatever shows that a container came to an end shows it of this run -/
structure Fresh (s : St) : Prop where
  containers : ∀ i state, s.containers i = some state → Ran state → s.exited i = true
  rows : ∀ p ∈ s.processes, ∃ state, p = E.row p.key state ∧ (Ran state → s.exited p.key = true)
  handler : ∀ i state, s.handler = .update i state → Ran state → s.exited i = true
  complete : (Complete E s ∧ ∀ i, s.start = .create i → E.count ≤ i) ∨ Creating E s
  ending : EndsSoundly E s

section Fresh

variable {E} {s s' : St}

theorem not_ran_created : ¬ Ran created := by
  rintro (h | h)
  · exact h rfl
  · cases h

/-- a step of the start task beside the containers and the rows -/
theorem Fresh.of_start (h : Fresh E s) (hcontainers : s'.containers = s.containers)
    (hprocesses : s'.processes = s.processes) (hhandler : s'.handler = s.handler) (hloop : s'.loop = s.loop)
    (hexited : s'.exited = s.exited)
    (hcomplete : (Complete E s' ∧ ∀ i, s'.start = .create i → E.count ≤ i) ∨ Creating E s') : Fresh E s' := by
  refine ⟨?_, ?_, ?_, hcomplete, ?_⟩
  · rw [hcontainers, hexited]
    exact h.containers
  · rw [hprocesses, hexited]
    exact h.rows
  · rw [hhandler, hexited]
    exact h.handler
  · unfold EndsSoundly
    rw [hloop, hexited]
    exact h.ending

/-- the start task goes on, once each container has its row -/
theorem Fresh.onward {phase : StartPhase} {actual : ObjPsStatusKind} (h : Fresh E s) (hcomplete : Complete E s)
    (hphase : ∀ i, phase = .create i → E.count ≤ i) : Fresh E { s with actual := actual, start := phase } :=
  h.of_start rfl rfl rfl rfl rfl (.inl ⟨hcomplete, hphase⟩)

/-- the start task fails -/
theorem Fresh.failed {phase : StartPhase} {actual : ObjPsStatusKind} (h : Fresh E s)
    (hphase : phase = .setFail ∨ phase = .writeFail ∨ phase = .done) :
    Fresh E { s with actual := actual, start := phase } := by
  refine h.of_start rfl rfl rfl rfl rfl ?_
  rcases h.complete with ⟨hcomplete, -⟩ | hcreating
  · refine .inl ⟨hcomplete, fun i hi => ?_⟩
    have hi' : phase = .create i := hi
    rcases hphase with rfl | rfl | rfl <;> cases hi'
  · exact .inr ⟨hcreating.containers, hcreating.messages, hcreating.handler, hcreating.dies, hcreating.loop,
      .inr (.inr hphase)⟩

/-- a container that starts has not come to an end by that -/
theorem Fresh.started {i : ℕ} {state state' : ContainerState} {messages : List EventMessage} {phase : StartPhase}
    (h : Fresh E s) (hc : s.containers i = some state) (hran : Ran state' → Ran state) (hcomplete : Complete E s)
    (hphase : ∀ j, phase = .create j → E.count ≤ j) :
    Fresh E { setContainer s i state' with messages := messages, start := phase } := by
  refine ⟨fun j st hj hr => ?_, h.rows, h.handler, .inl ⟨hcomplete, hphase⟩, h.ending⟩
  have hj' : Function.update s.containers i (some state') j = some st := hj
  by_cases hji : j = i
  · subst hji
    rw [Function.update_self] at hj'
    obtain rfl := Option.some.inj hj'
    exact h.containers j state hc (hran hr)
  · rw [Function.update_of_ne hji] at hj'
    exact h.containers j st hj' hr

theorem startContainer_fresh {i : ℕ} {phase : StartPhase} (h : Fresh E s) (hcomplete : Complete E s)
    (hphase : ∀ j, phase = .create j → E.count ≤ j) : Fresh E { startContainer s i with start := phase } := by
  unfold startContainer
  cases hc : s.containers i with
  | none => exact h.onward hcomplete hphase
  | some state =>
    simp only []
    split_ifs
    · exact h.onward hcomplete hphase
    · exact h.started hc (fun hr => hr) hcomplete hphase

theorem startStep_complete (h : Fresh E s) (hcomplete : Complete E s) (hcreate : ∀ i, s.start = .create i → E.count ≤ i)
    (ok : Bool) : Fresh E (startStep E s ok) := by
  unfold startStep
  cases hs : s.start with
  | read =>
    cases ok with
    | false => exact h.failed (.inl rfl)
    | true =>
      cases hrows : ProcessDb.newest100 s.processes with
      | nil =>
        -- a job without containers
        refine h.onward hcomplete fun i _ => ?_
        rw [ProcessDb.newest100_eq_nil] at hrows
        have hlength := hcomplete.length_eq
        rw [hrows, List.map_nil, List.length_nil, List.length_range] at hlength
        exact hlength ▸ Nat.zero_le i
      | cons p l => exact h.onward hcomplete fun i hi => by cases hi
  | create i =>
    have hlt : ¬ i < E.count := Nat.not_lt.2 (hcreate i hs)
    simp only [if_neg hlt]
    exact h.onward hcomplete fun j hj => by cases hj
  | setStart ids =>
    cases ok with
    | false => exact h.failed (.inl rfl)
    | true =>
      refine h.onward hcomplete fun i hi => ?_
      split_ifs at hi
  | writeStart ids =>
    cases ok with
    | false => exact h.failed (.inl rfl)
    | true => exact h.onward hcomplete fun i hi => by cases hi
  | run ids =>
    cases ids with
    | nil => exact h.failed (.inr (.inr rfl))
    | cons i ids =>
      cases ok with
      | false => exact h.onward hcomplete fun j hj => by cases hj
      | true => exact startContainer_fresh h hcomplete fun j hj => by cases hj
  | wait i ids =>
    cases ok with
    | false => exact h.failed (.inl rfl)
    | true =>
      dsimp only
      cases hc : s.containers i with
      | none => exact h.failed (.inl rfl)
      | some state =>
        dsimp only
        by_cases hrunning : state.running = some true
        · rw [if_pos hrunning]
          exact h
        · rw [if_neg hrunning]
          refine h.onward hcomplete fun j hj => ?_
          split_ifs at hj
  | setFail =>
    cases ok with
    | false => exact h.failed (.inr (.inr rfl))
    | true =>
      refine h.failed ?_
      split_ifs
      · exact .inr (.inr rfl)
      · exact .inr (.inl rfl)
  | writeFail => cases ok <;> exact h.failed (.inr (.inr rfl))
  | done => exact h

/-- one more container and its row -/
theorem Fresh.grown {i : ℕ} (h : Fresh E s) (hc : Creating E s) (hi : i < E.count)
    (hkeys : s.processes.map ProcessDb.key = List.range i) :
    Fresh E { setContainer s i created with
      processes := s.processes ++ [E.row i created]
      start := .create (i + 1) } := by
  have hnew : ∀ j st, Function.update s.containers i (some created) j = some st →
      st = created := by
    intro j st hj
    by_cases hji : j = i
    · subst hji
      rw [Function.update_self] at hj
      exact (Option.some.inj hj).symm
    · rw [Function.update_of_ne hji] at hj
      exact hc.containers j st hj
  refine ⟨fun j st hj hr => ?_, fun p hp => ?_, h.handler, .inr ?_, h.ending⟩
  · rw [hnew j st hj] at hr
    exact absurd hr not_ran_created
  · rcases List.mem_append.1 hp with hp | hp
    · exact h.rows p hp
    · obtain rfl := List.mem_singleton.1 hp
      exact ⟨_, rfl, fun hr => absurd hr not_ran_created⟩
  · refine ⟨hnew, hc.messages, hc.handler, hc.dies, hc.loop, .inr (.inl ⟨i + 1, hi, rfl, ?_⟩)⟩
    change (s.processes ++ [E.row i created]).map ProcessDb.key = _
    rw [List.map_append, hkeys, List.range_succ]
    rfl

theorem startStep_creating (h : Fresh E s) (hc : Creating E s) (ok : Bool) : Fresh E (startStep E s ok) := by
  unfold startStep
  rcases hc.start with ⟨hs, hrows⟩ | ⟨i, hi, hs, hkeys⟩ | hs | hs | hs
  · rw [hs]
    cases ok with
    | false => exact h.failed (.inl rfl)
    | true =>
      have hread : ProcessDb.newest100 s.processes = [] := ProcessDb.newest100_eq_nil.2 hrows
      dsimp only
      rw [hread]
      refine h.of_start rfl rfl rfl rfl rfl (.inr ⟨hc.containers, hc.messages, hc.handler, hc.dies, hc.loop, ?_⟩)
      exact .inr (.inl ⟨0, Nat.zero_le _, rfl, congrArg (List.map ProcessDb.key) hrows⟩)
  · rw [hs]
    simp only []
    by_cases hlt : i < E.count
    · rw [if_pos hlt]
      cases ok with
      | false => exact h.failed (.inl rfl)
      | true => exact h.grown hc hlt hkeys
    · have heq : i = E.count := by omega
      rw [if_neg hlt]
      have hcomplete : Complete E s := by
        unfold Complete
        rw [hkeys, heq]
      exact h.onward hcomplete fun j hj => by cases hj
  · rw [hs]
    cases ok with
    | false => exact h.failed (.inr (.inr rfl))
    | true =>
      refine h.failed ?_
      split_ifs
      · exact .inr (.inr rfl)
      · exact .inr (.inl rfl)
  · rw [hs]
    cases ok <;> exact h.failed (.inr (.inr rfl))
  · rw [hs]
    exact h

theorem startStep_fresh (h : Fresh E s) (ok : Bool) : Fresh E (startStep E s ok) := by
  rcases h.complete with ⟨hcomplete, hcreate⟩ | hcreating
  · exact startStep_complete h hcomplete hcreate ok
  · exact startStep_creating h hcreating ok

/-- a step that nothing can take while the containers are being created -/
theorem Fresh.complete_of (h : Fresh E s) (hnot : ¬ Creating E s) :
    Complete E s ∧ ∀ i, s.start = .create i → E.count ≤ i := h.complete.resolve_right hnot

theorem handleStep_fresh (h : Fresh E s) (ok : Bool) : Fresh E (handleStep E s ok) := by
  unfold handleStep
  cases hh : s.handler with
  | idle =>
    cases hm : s.messages with
    | nil =>
      dsimp only
      exact h
    | cons m messages =>
      have hcomplete := h.complete_of fun hc => by
        rw [hc.messages] at hm
        cases hm
      refine ⟨h.containers, h.rows, fun i state hi => ?_, .inl hcomplete, h.ending⟩
      have hi' : E.take m = .update i state := hi
      cases m with
      | start j => cases hi'
      | die j =>
        unfold Env.take at hi'
        dsimp only at hi'
        split_ifs at hi'
  | status i die =>
    have hcomplete := h.complete_of fun hc => by
      rw [hc.handler] at hh
      cases hh
    refine ⟨h.containers, h.rows, fun j state hj => ?_, .inl hcomplete, h.ending⟩
    dsimp only at hj
    split_ifs at hj
  | emit i =>
    have hcomplete := h.complete_of fun hc => by
      rw [hc.handler] at hh
      cases hh
    exact ⟨h.containers, h.rows, fun j state hj => (by cases hj), .inl hcomplete, h.ending⟩
  | inspect i =>
    have hcomplete := h.complete_of fun hc => by
      rw [hc.handler] at hh
      cases hh
    have hidle : Fresh E { s with handler := .idle } :=
      ⟨h.containers, h.rows, fun j state hj => (by cases hj), .inl hcomplete, h.ending⟩
    dsimp only
    cases hc : s.containers i with
    | none => exact hidle
    | some state =>
      cases ok with
      | false => exact hidle
      | true =>
        refine ⟨h.containers, h.rows, fun j st hj => ?_, .inl hcomplete, h.ending⟩
        obtain ⟨rfl, rfl⟩ : i = j ∧ state = st := by simpa using hj
        exact h.containers i state hc
  | update i state =>
    have hcomplete := h.complete_of fun hc => by
      rw [hc.handler] at hh
      cases hh
    have hkeys : ∀ l : List ProcessDb,
        (l.map fun p => if p.key = i then E.row i state else p).map ProcessDb.key = l.map ProcessDb.key := by
      intro l
      rw [List.map_map]
      refine List.map_congr_left fun p _ => ?_
      by_cases hp : p.key = i
      · simp [hp, Env.row]
      · simp [hp]
    cases ok with
    | false => exact ⟨h.containers, h.rows, fun j st hj => (by cases hj), .inl hcomplete, h.ending⟩
    | true =>
      refine ⟨h.containers, fun p hp => ?_, fun j st hj => (by cases hj), .inl ⟨?_, hcomplete.2⟩, h.ending⟩
      · obtain ⟨q, hq, rfl⟩ := List.mem_map.1 hp
        by_cases hqi : q.key = i
        · simp only [hqi, if_true]
          exact ⟨state, rfl, h.handler i state hh⟩
        · simp only [hqi, if_false]
          exact h.rows q hq
      · unfold Complete
        exact (hkeys s.processes).symm ▸ hcomplete.1

/-- all rows are read, and each of them shows a container that has run and exited in this run -/
theorem Fresh.exited (h : Fresh E s) (hcount : E.count ≤ 100) (hcomplete : Complete E s)
    {total failed success : ℕ}
    (hrun : countStatus (ProcessDb.newest100 s.processes) = some (total, failed, success, 0)) :
    ∀ i < E.count, s.exited i = true := by
  intro i hi
  obtain ⟨p, hp, rfl⟩ := List.mem_map.1 (hcomplete.mem_iff.2 (List.mem_range.2 hi))
  have hlength : s.processes.length ≤ 100 := by
    have := hcomplete.length_eq
    rw [List.length_map, List.length_range] at this
    omega
  obtain ⟨state, hstate, hexited⟩ := h.rows p hp
  refine hexited (ran_of_not_running E (i := p.key) ?_)
  rw [← hstate]
  exact countStatus_running hrun p ((ProcessDb.newest100_perm hlength).mem_iff.2 hp)

theorem loopStep_fresh (h : Fresh E s) (hcount : E.count ≤ 100) (ok : Bool) : Fresh E (loopStep s ok) := by
  have hnext : ∀ phase : TtlPhase, ∀ actual dies, ¬ Creating E s →
      (phase.ending = true → ∀ i < E.count, s.exited i = true) →
      Fresh E { s with actual := actual, dies := dies, loop := phase } := fun phase actual dies hnot hending =>
    ⟨h.containers, h.rows, h.handler, .inl (h.complete_of hnot), hending⟩
  have hbusy : s.loop ≠ .idle → ¬ Creating E s := fun hne hc => hne hc.loop
  unfold loopStep
  cases hl : s.loop with
  | idle =>
    dsimp only
    by_cases hdies : s.dies = 0
    · rw [if_pos hdies]
      exact h
    · rw [if_neg hdies]
      exact hnext _ _ _ (fun hc => hdies hc.dies) fun he => by cases he
  | status =>
    have hnot := hbusy (by simp [hl])
    cases ok with
    | false => exact hnext _ _ _ hnot fun he => by cases he
    | true =>
      refine hnext _ _ _ hnot fun he => ?_
      split_ifs at he <;> cases he
  | count =>
    have hnot := hbusy (by simp [hl])
    cases ok with
    | false => exact hnext _ _ _ hnot fun he => by cases he
    | true =>
      dsimp only
      cases hn : countStatus (ProcessDb.newest100 s.processes) with
      | none => exact hnext _ _ _ hnot fun he => by cases he
      | some n =>
        obtain ⟨total, failed, success, running⟩ := n
        refine hnext _ _ _ hnot fun he => ?_
        by_cases hrunning : running = 0
        · subst hrunning
          exact h.exited hcount (h.complete_of hnot).1 hn
        · rw [if_pos hrunning] at he
          cases he
  | set status =>
    have hnot := hbusy (by simp [hl])
    have hending := h.ending (by rw [hl]; rfl)
    cases ok with
    | false => exact hnext _ _ _ hnot fun he => by cases he
    | true => exact hnext _ _ _ hnot fun _ => hending
  | write status =>
    have hnot := hbusy (by simp [hl])
    have hending := h.ending (by rw [hl]; rfl)
    cases ok with
    | false => exact hnext _ _ _ hnot fun he => by cases he
    | true => exact hnext _ _ _ hnot fun _ => hending
  | schedule => exact hnext _ _ _ (hbusy (by simp [hl])) fun he => by cases he
  | panicked => exact h

/-- a container that docker has started in this run, or that came to an end in it, changes -/
theorem Fresh.changed {i : ℕ} {state state' : ContainerState} {messages : List EventMessage} {exited : ℕ → Bool}
    (h : Fresh E s) (hc : s.containers i = some state) (hne : state ≠ created)
    (hmono : ∀ j, s.exited j = true → exited j = true) (hran : Ran state' → exited i = true) :
    Fresh E { setContainer s i state' with messages := messages, exited := exited } := by
  have hcomplete := h.complete_of fun hcreating => hne (hcreating.containers i state hc)
  refine ⟨fun j st hj hr => ?_, fun p hp => ?_, fun j st hj hr => hmono j (h.handler j st hj hr), .inl hcomplete,
    fun he j hj => hmono j (h.ending he j hj)⟩
  · have hj' : Function.update s.containers i (some state') j = some st := hj
    by_cases hji : j = i
    · subst hji
      rw [Function.update_self] at hj'
      obtain rfl := Option.some.inj hj'
      exact hran hr
    · rw [Function.update_of_ne hji] at hj'
      exact hmono j (h.containers j st hj' hr)
  · obtain ⟨st, hst, hexited⟩ := h.rows p hp
    exact ⟨st, hst, fun hr => hmono _ (hexited hr)⟩

theorem endContainer_fresh (h : Fresh E s) (i : ℕ) (exitCode : ℤ) (finishedAt : String) (restarting : Bool) :
    Fresh E (endContainer s i exitCode finishedAt restarting) := by
  unfold endContainer
  cases hc : s.containers i with
  | none => exact h
  | some state =>
    dsimp only
    split_ifs with hends
    · refine h.changed hc ?_ (fun j hj => ?_) fun _ => Function.update_self ..
      · rintro rfl
        cases hends.1
      · by_cases hji : j = i
        · rw [hji, Function.update_self]
        · rw [Function.update_of_ne hji]
          exact hj
    · exact h

theorem restartContainer_fresh (h : Fresh E s) (i : ℕ) : Fresh E (restartContainer s i) := by
  unfold restartContainer
  cases hc : s.containers i with
  | none => exact h
  | some state =>
    dsimp only
    split_ifs with hrestarts
    · have hran : Ran state := hrestarts.elim .inr fun hf => .inl hf.2
      refine h.changed hc ?_ (fun _ hj => hj) fun _ => h.containers i state hc hran
      rintro rfl
      exact not_ran_created hran
    · exact h

/-- **Step**: what shows that a container came to an end goes on to show it of this run. -/
theorem step_fresh (hcount : E.count ≤ 100) (o : Op) (h : Fresh E s) : Fresh E (step E s o) := by
  cases o with
  | start ok => exact startStep_fresh h ok
  | handle ok => exact handleStep_fresh h ok
  | loop ok => exact loopStep_fresh h hcount ok
  | ends i exitCode finishedAt restarting => exact endContainer_fresh h i exitCode finishedAt restarting
  | restarts i => exact restartContainer_fresh h i

theorem zeroTime_of_untouched {i : ℕ} {state : ContainerState} (h : Untouched (E.row i state)) :
    state.finishedAt = some zeroTime := h

/-- the containers of the job never ran: there are none, or each has a row that shows it -/
theorem fresh_requested (h : AtRest E s)
    (hfresh : s.processes = [] ∨ (s.processes.length = E.count ∧ ∀ p ∈ s.processes, Untouched p)) :
    Fresh E (requested s) := by
  have huntouched : ∀ p ∈ s.processes, Untouched p := by
    rcases hfresh with hnil | ⟨-, hall⟩
    · rw [hnil]
      intro p hp
      cases hp
    · exact hall
  have hrows : ∀ p ∈ s.processes, ∃ state, p = E.row p.key state ∧ s.containers p.key = some state ∧ ¬ Ran state := by
    intro p hp
    obtain ⟨t, code, error, hrow, hc⟩ := h.rows p hp
    refine ⟨_, hrow, hc, ?_⟩
    have hzero := zeroTime_of_untouched (E := E) (i := p.key) (hrow ▸ huntouched p hp)
    rintro (hf | hr)
    · exact hf hzero
    · cases hr
  have hnone : ∀ i state, s.containers i = some state → ¬ Ran state := by
    intro i state hc
    by_cases hi : i < s.processes.length
    · obtain ⟨p, hp, rfl⟩ := List.mem_map.1 (h.keys.mem_iff.2 (List.mem_range.2 hi))
      obtain ⟨state', -, hc', hran⟩ := hrows p hp
      rw [hc'] at hc
      exact Option.some.inj hc ▸ hran
    · rw [h.containers i (Nat.not_lt.1 hi)] at hc
      cases hc
  refine ⟨fun i state hc hr => absurd hr (hnone i state hc), fun p hp => ?_, fun i state hi => ?_, ?_, fun he => ?_⟩
  · obtain ⟨state, hrow, -, hran⟩ := hrows p hp
    exact ⟨state, hrow, fun hr => absurd hr hran⟩
  · have hi' : s.handler = .update i state := hi
    rw [h.handler] at hi'
    cases hi'
  · rcases hfresh with hnil | ⟨hlength, -⟩
    · refine .inr ⟨fun i state hc => ?_, h.messages, h.handler, h.dies, h.loop, .inl ⟨rfl, hnil⟩⟩
      have hc' : s.containers i = some state := hc
      rw [h.containers i (by rw [hnil]; exact Nat.zero_le i)] at hc'
      cases hc'
    · refine .inl ⟨?_, fun i hi => by cases hi⟩
      unfold Complete
      exact hlength ▸ h.keys
  · have he' : s.loop.ending = true := he
    rw [h.loop] at he'
    cases he'

/-- a job whose containers never ran ends soundly -/
theorem endsSoundly_of_fresh (hcount : E.count ≤ 100) (h : AtRest E s)
    (hfresh : s.processes = [] ∨ (s.processes.length = E.count ∧ ∀ p ∈ s.processes, Untouched p)) (ops : List Op) :
    EndsSoundly E (run (step E) (requested s) ops) := by
  have hrun : Fresh E (run (step E) (requested s) ops) :=
    inv_run (C := fun _ _ => True) (I := Fresh E) (fun _ o h _ => step_fresh hcount o h) (fresh_requested h hfresh)
      (along_true _ _ _)
  exact hrun.ending

end Fresh

/-! ## Runs of one container -/

/-- no container has died, as far as the daemon knows -/
structure Still (s : St) : Prop where
  messages : ∀ i, EventMessage.die i ∉ s.messages
  handler : ∀ i, s.handler ≠ .status i true ∧ s.handler ≠ .emit i
  dies : s.dies = 0
  loop : s.loop = .idle

/-- there is one container, and the daemon has heard of a death only if it is one of this run -/
structure Single (s : St) : Prop where
  containers : ∀ i, i ≠ 0 → s.containers i = none
  processes : s.processes ≠ []
  start : ∀ i, s.start ≠ .create i
  still : s.exited 0 = true ∨ Still s

section Single

variable {E} {s : St}

theorem Single.endsSoundly (h : Single s) (hcount : E.count ≤ 1) : EndsSoundly E s := by
  intro he i hi
  have hzero : i = 0 := by omega
  subst hzero
  refine h.still.resolve_right fun hstill => ?_
  rw [hstill.loop] at he
  cases he

/-- the start of a container, by the task or by docker -/
theorem Single.started {i : ℕ} {state state' : ContainerState} {phase : StartPhase} (h : Single s)
    (hc : s.containers i = some state) (hphase : ∀ j, phase ≠ .create j) :
    Single { setContainer s i state' with messages := s.messages ++ [.start i], start := phase } := by
  have hzero : i = 0 := by
    by_contra hne
    rw [h.containers i hne] at hc
    cases hc
  refine ⟨fun j hj => ?_, h.processes, hphase, h.still.imp_right fun hstill => ?_⟩
  · exact (Function.update_of_ne (hzero ▸ hj) ..).trans (h.containers j hj)
  · refine ⟨fun j hj => ?_, hstill.handler, hstill.dies, hstill.loop⟩
    rcases List.mem_append.1 hj with hj | hj
    · exact hstill.messages j hj
    · cases List.mem_singleton.1 hj

theorem Single.onward {phase : StartPhase} {actual : ObjPsStatusKind} (h : Single s) (hphase : ∀ j, phase ≠ .create j) :
    Single { s with actual := actual, start := phase } :=
  ⟨h.containers, h.processes, hphase, h.still.imp_right fun hstill =>
    ⟨hstill.messages, hstill.handler, hstill.dies, hstill.loop⟩⟩

theorem startStep_single (h : Single s) (ok : Bool) : Single (startStep E s ok) := by
  have hfail : Single { s with start := .setFail } := h.onward fun j hj => by cases hj
  have hdone : ∀ actual, Single { s with actual := actual, start := .done } := fun _ => h.onward fun j hj => by cases hj
  unfold startStep
  cases hs : s.start with
  | read =>
    cases ok with
    | false => exact hfail
    | true =>
      cases hrows : ProcessDb.newest100 s.processes with
      | nil => exact absurd (ProcessDb.newest100_eq_nil.1 hrows) h.processes
      | cons p l => exact h.onward fun j hj => by cases hj
  | create i => exact absurd hs (h.start i)
  | setStart ids =>
    cases ok with
    | false => exact hfail
    | true =>
      refine h.onward fun j hj => ?_
      split_ifs at hj
  | writeStart ids =>
    cases ok with
    | false => exact hfail
    | true => exact h.onward fun j hj => by cases hj
  | run ids =>
    cases ids with
    | nil => exact hdone _
    | cons i ids =>
      have hwait : Single { s with start := .wait i ids } := h.onward fun j hj => by cases hj
      cases ok with
      | false => exact hwait
      | true =>
        dsimp only
        rw [if_pos rfl, startContainer]
        cases hc : s.containers i with
        | none => exact hwait
        | some state =>
          dsimp only
          split_ifs
          · exact hwait
          · exact h.started hc fun j hj => by cases hj
  | wait i ids =>
    cases ok with
    | false => exact hfail
    | true =>
      dsimp only
      cases hc : s.containers i with
      | none => exact hfail
      | some state =>
        dsimp only
        by_cases hrunning : state.running = some true
        · rw [if_pos hrunning]
          exact h
        · rw [if_neg hrunning]
          refine h.onward fun j hj => ?_
          split_ifs at hj
  | setFail =>
    cases ok with
    | false => exact hdone _
    | true =>
      refine h.onward fun j hj => ?_
      split_ifs at hj
  | writeFail => cases ok <;> exact hdone _
  | done => exact h

/-- the handler takes a step without any death -/
theorem handleStep_still (h : Still s) (ok : Bool) : Still (handleStep E s ok) := by
  unfold handleStep
  cases hh : s.handler with
  | idle =>
    cases hm : s.messages with
    | nil =>
      dsimp only
      exact h
    | cons m messages =>
      have hnot : ∀ i, EventMessage.die i ∉ m :: messages := hm ▸ h.messages
      refine ⟨fun i hi => hnot i (List.mem_cons_of_mem _ hi), fun i => ?_, h.dies, h.loop⟩
      cases m with
      | start j => simp [Env.take]
      | die j => exact absurd (List.mem_cons_self ..) (hnot j)
  | status i die =>
    cases die with
    | true => exact absurd hh (h.handler i).1
    | false =>
      refine ⟨h.messages, fun j => ?_, h.dies, h.loop⟩
      cases ok <;> simp
  | emit i => exact absurd hh (h.handler i).2
  | inspect i =>
    dsimp only
    cases s.containers i with
    | none => exact ⟨h.messages, fun j => by simp, h.dies, h.loop⟩
    | some state => cases ok <;> exact ⟨h.messages, fun j => by simp, h.dies, h.loop⟩
  | update i state => exact ⟨h.messages, fun j => by simp, h.dies, h.loop⟩

/-- the handler touches neither the containers nor the start task, and no row goes away -/
theorem handleStep_frame (s : St) (ok : Bool) : (handleStep E s ok).containers = s.containers ∧
    (handleStep E s ok).start = s.start ∧ (handleStep E s ok).exited = s.exited ∧
      (handleStep E s ok).processes.length = s.processes.length := by
  unfold handleStep
  cases s.handler with
  | idle => cases s.messages <;> exact ⟨rfl, rfl, rfl, rfl⟩
  | status i die => exact ⟨rfl, rfl, rfl, rfl⟩
  | emit i => exact ⟨rfl, rfl, rfl, rfl⟩
  | inspect i =>
    dsimp only
    cases s.containers i with
    | none => exact ⟨rfl, rfl, rfl, rfl⟩
    | some state => cases ok <;> exact ⟨rfl, rfl, rfl, rfl⟩
  | update i state =>
    refine ⟨rfl, rfl, rfl, ?_⟩
    cases ok with
    | false => rfl
    | true => exact List.length_map ..

theorem handleStep_single (h : Single s) (ok : Bool) : Single (handleStep E s ok) := by
  obtain ⟨hcontainers, hstart, hexited, hlength⟩ := handleStep_frame (E := E) s ok
  refine ⟨?_, ?_, ?_, ?_⟩
  · rw [hcontainers]
    exact h.containers
  · intro hnil
    rw [hnil, List.length_nil] at hlength
    exact h.processes (List.length_eq_zero_iff.1 hlength.symm)
  · rw [hstart]
    exact h.start
  · rw [hexited]
    exact h.still.imp_right fun hstill => handleStep_still hstill ok

theorem loopStep_frame (s : St) (ok : Bool) : (loopStep s ok).containers = s.containers ∧
    (loopStep s ok).start = s.start ∧ (loopStep s ok).exited = s.exited ∧ (loopStep s ok).processes = s.processes := by
  unfold loopStep
  cases s.loop with
  | idle =>
    dsimp only
    split_ifs <;> exact ⟨rfl, rfl, rfl, rfl⟩
  | count =>
    cases ok with
    | false => exact ⟨rfl, rfl, rfl, rfl⟩
    | true =>
      dsimp only
      cases countStatus (ProcessDb.newest100 s.processes) <;> exact ⟨rfl, rfl, rfl, rfl⟩
  | _ => cases ok <;> exact ⟨rfl, rfl, rfl, rfl⟩

theorem loopStep_single (h : Single s) (ok : Bool) : Single (loopStep s ok) := by
  obtain ⟨hcontainers, hstart, hexited, hprocesses⟩ := loopStep_frame s ok
  refine ⟨?_, ?_, ?_, ?_⟩
  · rw [hcontainers]
    exact h.containers
  · rw [hprocesses]
    exact h.processes
  · rw [hstart]
    exact h.start
  · rw [hexited]
    refine h.still.imp_right fun hstill => ?_
    have hsame : loopStep s ok = s := by
      unfold loopStep
      rw [hstill.loop]
      exact if_pos hstill.dies
    rw [hsame]
    exact hstill

theorem endContainer_single (h : Single s) (i : ℕ) (exitCode : ℤ) (finishedAt : String) (restarting : Bool) :
    Single (endContainer s i exitCode finishedAt restarting) := by
  unfold endContainer
  cases hc : s.containers i with
  | none => exact h
  | some state =>
    dsimp only
    split_ifs
    · have hzero : i = 0 := by
        by_contra hne
        rw [h.containers i hne] at hc
        cases hc
      subst hzero
      exact ⟨fun j hj => (Function.update_of_ne hj ..).trans (h.containers j hj), h.processes, h.start,
        .inl (Function.update_self 0 true s.exited)⟩
    · exact h

theorem restartContainer_single (h : Single s) (i : ℕ) : Single (restartContainer s i) := by
  unfold restartContainer
  cases hc : s.containers i with
  | none => exact h
  | some state =>
    dsimp only
    split_ifs
    · exact h.started hc h.start
    · exact h

theorem step_single (o : Op) (h : Single s) : Single (step E s o) := by
  cases o with
  | start ok => exact startStep_single h ok
  | handle ok => exact handleStep_single h ok
  | loop ok => exact loopStep_single h ok
  | ends i exitCode finishedAt restarting => exact endContainer_single h i exitCode finishedAt restarting
  | restarts i => exact restartContainer_single h i

/-- a job with one container ends soundly, however often it has run -/
theorem endsSoundly_of_single (hcount : E.count ≤ 1) (h : AtRest E s) (hne : s.processes ≠ []) (ops : List Op) :
    EndsSoundly E (run (step E) (requested s) ops) := by
  have hlength : s.processes.length = 1 := by
    have hpos := List.length_pos_iff.2 hne
    have hle := h.length
    omega
  have hsingle : Single (requested s) := by
    refine ⟨fun i hi => h.containers i (by omega), hne, fun i hi => (by cases hi), .inr ?_⟩
    refine ⟨fun i hi => ?_, fun i => ?_, h.dies, h.loop⟩
    · have hi' : EventMessage.die i ∈ s.messages := hi
      rw [h.messages] at hi'
      cases hi'
    · have hidle : (requested s).handler = .idle := h.handler
      rw [hidle]
      simp
  have hrun : Single (run (step E) (requested s) ops) :=
    inv_run (C := fun _ _ => True) (I := Single) (fun _ o h _ => step_single o h) hsingle (along_true _ _ _)
  exact hrun.endsSoundly hcount

end Single

/-! ## A schedule that ends the job too early -/

def endTime : String := "1970-01-01T00:00:00Z"

/-- a container that has run and exited well -/
def exitedState : ContainerState := ⟨some false, some false, some endTime, some 0, some ""⟩

/-- the row of the container is brought up to date -/
def updateRow (i : ℕ) (state : ContainerState) (l : List ProcessDb) : List ProcessDb :=
  l.map fun p => if p.key = i then E.row i state else p

/-- the task runs a container, and docker's reports are handled in time -/
def runOne (i : ℕ) : List Op :=
  [.start true, .handle true, .handle true, .handle true, .handle true, .ends i 0 endTime false,
    .handle true, .handle true, .handle true, .handle true, .handle true, .start true]

section Early

variable {E} {s : St}

theorem updateRow_updateRow (i : ℕ) (a b : ContainerState) (l : List ProcessDb) :
    updateRow E i b (updateRow E i a l) = updateRow E i b l := by
  unfold updateRow
  rw [List.map_map]
  refine List.map_congr_left fun p _ => ?_
  by_cases hp : p.key = i
  · simp [hp, Env.row]
  · simp [hp]

theorem take_die (i : ℕ) : E.take (.die i) = .emit i ∨ E.take (.die i) = .status i true := by
  unfold Env.take
  dsimp only
  split_ifs
  · exact .inl rfl
  · exact .inr rfl

/-- the report of a start is handled -/
theorem run_handle_start {i : ℕ} {state : ContainerState} (hh : s.handler = .idle) (hm : s.messages = [.start i])
    (hc : s.containers i = some state) :
    run (step E) s [.handle true, .handle true, .handle true, .handle true] =
      { s with messages := [], processes := updateRow E i state s.processes } := by
  simp [run, step, handleStep, hh, hm, hc, Env.take, updateRow]

/-- the report of a death is handled -/
theorem run_handle_die {i : ℕ} {state : ContainerState} (hh : s.handler = .idle) (hm : s.messages = [.die i])
    (hc : s.containers i = some state) :
    run (step E) s [.handle true, .handle true, .handle true, .handle true, .handle true] =
      { s with messages := [], processes := updateRow E i state s.processes, dies := s.dies + 1 } := by
  rcases take_die (E := E) i with htake | htake
  · simp [run, step, handleStep, hh, hm, hc, htake, updateRow]
  · simp [run, step, handleStep, hh, hm, hc, htake, updateRow]

theorem run_runOne {i : ℕ} {ids : List ℕ} {state : ContainerState} (hstart : s.start = .run (i :: ids))
    (hm : s.messages = []) (hh : s.handler = .idle) (hc : s.containers i = some state)
    (hrunning : state.running = some false) (hrestarting : state.restarting = some false) :
    run (step E) s (runOne i) =
      { s with
        containers := Function.update s.containers i (some exitedState)
        processes := updateRow E i exitedState s.processes
        start := .run ids
        dies := s.dies + 1
        exited := Function.update s.exited i true } := by
  let running : ContainerState := { state with running := some true, exitCode := some 0, error := some "" }
  -- the container runs, comes to an end, and the task has waited for it
  let s₁ : St := { setContainer s i running with messages := [.start i], start := .wait i ids }
  let s₂ : St := { s₁ with messages := [], processes := updateRow E i running s.processes }
  let s₃ : St := { setContainer s₂ i exitedState with messages := [.die i], exited := Function.update s.exited i true }
  let s₄ : St := { s₃ with messages := [], processes := updateRow E i exitedState s₃.processes, dies := s.dies + 1 }
  have h₁ : step E s (.start true) = s₁ := by
    simp [step, startStep, hstart, startContainer, hc, hrunning, hm, running, s₁]
  have h₂ : run (step E) s₁ [.handle true, .handle true, .handle true, .handle true] = s₂ :=
    run_handle_start hh rfl (Function.update_self ..)
  have h₃ : step E s₂ (.ends i 0 endTime false) = s₃ := by
    have htime : endTime ≠ zeroTime := by decide
    simp [step, endContainer, htime, hrestarting, running, s₃, s₂, s₁, setContainer, exitedState]
  have h₄ : run (step E) s₃ [.handle true, .handle true, .handle true, .handle true, .handle true] = s₄ :=
    run_handle_die hh rfl (Function.update_self ..)
  have h₅ : step E s₄ (.start true) = { s₄ with start := .run ids } := by
    have hc₄ : s₄.containers i = some exitedState := Function.update_self ..
    have hstart₄ : s₄.start = .wait i ids := rfl
    simp [step, startStep, hstart₄, hc₄, exitedState]
  have hrun : run (step E) s (runOne i) =
      step E (run (step E) (step E (run (step E) (step E s (.start true))
        [.handle true, .handle true, .handle true, .handle true]) (.ends i 0 endTime false))
        [.handle true, .handle true, .handle true, .handle true, .handle true]) (.start true) := rfl
  rw [hrun, h₁, h₂, h₃, h₄, h₅]
  simp [s₄, s₃, s₂, s₁, setContainer, updateRow_updateRow, hm]

/-- the task has run these containers, and the others are as they were -/
structure RanAll (s s' : St) (ids rest : List ℕ) : Prop where
  start : s'.start = .run rest
  messages : s'.messages = []
  handler : s'.handler = .idle
  loop : s'.loop = .idle
  actual : s'.actual = s.actual
  dies : s'.dies = s.dies + ids.length
  exited : ∀ i, s'.exited i = true ↔ s.exited i = true ∨ i ∈ ids
  others : ∀ i, i ∉ ids → s'.containers i = s.containers i
  rows : ∀ p ∈ s'.processes, (p.key ∈ ids ∧ p = E.row p.key exitedState) ∨ (p.key ∉ ids ∧ p ∈ s.processes)

theorem run_runAll {ids rest : List ℕ} (hstart : s.start = .run (ids ++ rest)) (hm : s.messages = [])
    (hh : s.handler = .idle) (hl : s.loop = .idle) (hnodup : ids.Nodup)
    (hc : ∀ i ∈ ids, ∃ state, s.containers i = some state ∧ state.running = some false ∧ state.restarting = some false) :
    RanAll (E := E) s (run (step E) s (ids.flatMap runOne)) ids rest := by
  induction ids generalizing s with
  | nil =>
    exact ⟨hstart, hm, hh, hl, rfl, rfl, fun i => by simp [run], fun _ _ => rfl, fun p hp => .inr ⟨by simp, hp⟩⟩
  | cons i ids ih =>
    obtain ⟨state, hi, hrunning, hrestarting⟩ := hc i (List.mem_cons_self ..)
    obtain ⟨hnot, hnodup'⟩ := List.nodup_cons.1 hnodup
    let s₁ : St := { s with
      containers := Function.update s.containers i (some exitedState)
      processes := updateRow E i exitedState s.processes
      start := .run (ids ++ rest)
      dies := s.dies + 1
      exited := Function.update s.exited i true }
    have hone : run (step E) s (runOne i) = s₁ := run_runOne hstart hm hh hi hrunning hrestarting
    rw [List.flatMap_cons, run_append, hone]
    have hnext : RanAll (E := E) s₁ (run (step E) s₁ (ids.flatMap runOne)) ids rest := by
      refine ih rfl hm hh hl hnodup' fun j hj => ?_
      obtain ⟨st, hst, hflags⟩ := hc j (List.mem_cons_of_mem _ hj)
      have hji : j ≠ i := fun heq => hnot (heq ▸ hj)
      exact ⟨st, (Function.update_of_ne hji ..).trans hst, hflags⟩
    refine ⟨hnext.start, hnext.messages, hnext.handler, hnext.loop, hnext.actual, ?_, ?_, ?_, ?_⟩
    · have hdies : s₁.dies = s.dies + 1 := rfl
      rw [hnext.dies, hdies, List.length_cons]
      omega
    · intro j
      rw [hnext.exited j]
      change Function.update s.exited i true j = true ∨ j ∈ ids ↔ _
      by_cases hj : j = i
      · simp [hj]
      · simp [hj]
    · intro j hj
      rw [List.mem_cons, not_or] at hj
      rw [hnext.others j hj.2]
      exact Function.update_of_ne hj.1 ..
    · intro p hp
      rcases hnext.rows p hp with ⟨hmem, hrow⟩ | ⟨hmem, hrow⟩
      · exact .inl ⟨List.mem_cons_of_mem _ hmem, hrow⟩
      · obtain ⟨q, hq, heq⟩ := List.mem_map.1 hrow
        by_cases hqi : q.key = i
        · rw [if_pos hqi] at heq
          subst heq
          exact .inl ⟨List.mem_cons_self .., rfl⟩
        · rw [if_neg hqi] at heq
          subst heq
          exact .inr ⟨by simp [hqi, hmem], hq⟩

theorem AtRest.key_lt (h : AtRest E s) {p : ProcessDb} (hp : p ∈ s.processes) : p.key < s.processes.length :=
  List.mem_range.1 (h.keys.mem_iff.1 (List.mem_map_of_mem hp))

theorem AtRest.nodup_keys (h : AtRest E s) : (s.processes.map ProcessDb.key).Nodup :=
  h.keys.nodup_iff.2 List.nodup_range

theorem AtRest.nodup_newest (hcount : E.count ≤ 100) (h : AtRest E s) :
    ((ProcessDb.newest100 s.processes).map ProcessDb.key).Nodup := by
  have hperm := ProcessDb.newest100_perm (h.length.trans hcount)
  exact (hperm.map ProcessDb.key).nodup_iff.2 h.nodup_keys

/-- the task runs the first of the containers; the rows of the others show an end that is not of this run -/
theorem ends_early {ids rest : List ℕ} {i : ℕ} (hcount : E.count ≤ 100) (h : AtRest E s)
    (hkeys : (ProcessDb.newest100 s.processes).map ProcessDb.key = ids ++ rest) (hne : ids ≠ [])
    (hrest : ∀ p ∈ s.processes, p.key ∈ rest → ¬ Untouched p) (hi : i < E.count) (hnot : i ∉ ids) :
    ∃ ops, ¬ EndsSoundly E (run (step E) (requested s) ops) := by
  have hlength : s.processes.length ≤ 100 := h.length.trans hcount
  have hperm := ProcessDb.newest100_perm hlength
  have hnodup : (ids ++ rest).Nodup := hkeys ▸ h.nodup_newest hcount
  have hmem : ∀ p ∈ s.processes, p.key ∈ ids ∨ p.key ∈ rest := by
    intro p hp
    rw [← List.mem_append, ← hkeys]
    exact List.mem_map_of_mem (hperm.mem_iff.2 hp)
  let s₀ : St := { requested s with start := .run (ids ++ rest), actual := .start }
  have hfirst : run (step E) (requested s) [.start true, .start true, .start true] = s₀ := by
    cases hl : ProcessDb.newest100 s.processes with
    | nil =>
      rw [hl, List.map_nil] at hkeys
      exact absurd (List.append_eq_nil_iff.1 hkeys.symm).1 hne
    | cons p l =>
      rw [hl] at hkeys
      simp only [List.map_cons] at hkeys
      simp [run, step, startStep, requested, hl, s₀, ← hkeys]
  have hran : RanAll (E := E) s₀ (run (step E) s₀ (ids.flatMap runOne)) ids rest := by
    refine run_runAll rfl h.messages h.handler h.loop (List.nodup_append.1 hnodup).1 fun j hj => ?_
    have hj' : j ∈ s.processes.map ProcessDb.key := by
      rw [← (hperm.map ProcessDb.key).mem_iff, hkeys]
      exact List.mem_append_left _ hj
    obtain ⟨p, hp, rfl⟩ := List.mem_map.1 hj'
    obtain ⟨t, code, error, -, hc⟩ := h.rows p hp
    exact ⟨_, hc, rfl, rfl⟩
  generalize hs' : run (step E) s₀ (ids.flatMap runOne) = s' at hran
  -- then `job_ttl` looks at the rows
  have hrows : ∀ p ∈ ProcessDb.newest100 s'.processes, ∃ f g, countInstance p.data = some (f, g, 0) := by
    intro p hp
    rcases hran.rows p (ProcessDb.mem_of_mem_newest100 hp) with ⟨-, hrow⟩ | ⟨hout, hold⟩
    · rw [hrow]
      exact countInstance_exited_state E (by decide)
    · have hp' : p ∈ s.processes := hold
      obtain ⟨t, code, error, hrow, -⟩ := h.rows p hp'
      have ht : t ≠ zeroTime := by
        rintro rfl
        refine hrest p hp' ((hmem p hp').resolve_left hout) ?_
        rw [hrow]
        rfl
      rw [hrow]
      exact countInstance_exited_state E ht
  obtain ⟨failed, success, hrun⟩ := countStatus_not_running hrows
  have hdies : s'.dies ≠ 0 := by
    rw [hran.dies]
    have := List.length_pos_iff.2 hne
    omega
  have hactual : s'.actual = .start := hran.actual
  refine ⟨[.start true, .start true, .start true] ++ (ids.flatMap runOne ++ [.loop true, .loop true, .loop true]),
    fun hsound => ?_⟩
  rw [run_append, hfirst, run_append, hs'] at hsound
  have hending : (run (step E) s' [.loop true, .loop true, .loop true]).loop.ending = true := by
    simp [run, step, loopStep, hran.loop, hdies, hactual, hrun, TtlPhase.ending]
  have hexited : (run (step E) s' [.loop true, .loop true, .loop true]).exited i = s'.exited i := by
    simp [run, step, loopStep, hran.loop, hdies, hactual, hrun]
  have htrue := hsound hending i hi
  rw [hexited, hran.exited i] at htrue
  rcases htrue with hbefore | hin
  · cases hbefore
  · exact hnot hin

/-- all run but the last, whose row shows an earlier end -/
theorem not_soundly_of_last (hcount : E.count ≤ 100) (h : AtRest E s) (hfull : s.processes.length = E.count)
    (hmany : ¬ E.count ≤ 1) {p : ProcessDb} (hlast : (ProcessDb.newest100 s.processes).getLast? = some p)
    (hp : ¬ Untouched p) : ¬ ∀ ops, EndsSoundly E (run (step E) (requested s) ops) := by
  intro hall
  have hperm := ProcessDb.newest100_perm (h.length.trans hcount)
  obtain ⟨l, hl⟩ := List.getLast?_eq_some_iff.1 hlast
  have hkeys : (ProcessDb.newest100 s.processes).map ProcessDb.key = l.map ProcessDb.key ++ [p.key] := by
    rw [hl, List.map_append]
    rfl
  have hnodup : (l.map ProcessDb.key ++ [p.key]).Nodup := hkeys ▸ h.nodup_newest hcount
  have hmem : p ∈ s.processes := hperm.mem_iff.1 (hl ▸ List.mem_append_right _ (List.mem_singleton_self p))
  have hmore : l.map ProcessDb.key ≠ [] := by
    intro hnil
    have hsingle := hperm.length_eq
    rw [hl, List.map_eq_nil_iff.1 hnil] at hsingle
    exact hmany (hfull ▸ hsingle ▸ le_refl 1)
  have hout : p.key ∉ l.map ProcessDb.key := fun hin =>
    (List.nodup_append.1 hnodup).2.2 p.key hin p.key (List.mem_singleton_self _) rfl
  -- the keys tell the rows apart
  have hrest : ∀ q ∈ s.processes, q.key ∈ [p.key] → ¬ Untouched q := by
    intro q hq hqp
    have hqkey : q.key = p.key := List.mem_singleton.1 hqp
    have hinj := List.inj_on_of_nodup_map h.nodup_keys hq hmem hqkey
    exact hinj ▸ hp
  obtain ⟨ops, hops⟩ := ends_early hcount h hkeys hmore hrest (hfull ▸ h.key_lt hmem) hout
  exact hops (hall ops)

/-- the container of the next index does not exist -/
theorem not_soundly_of_missing (hcount : E.count ≤ 100) (h : AtRest E s) (hne : s.processes ≠ [])
    (hpart : s.processes.length ≠ E.count) : ¬ ∀ ops, EndsSoundly E (run (step E) (requested s) ops) := by
  intro hall
  have hperm := ProcessDb.newest100_perm (h.length.trans hcount)
  have hkeys : (ProcessDb.newest100 s.processes).map ProcessDb.key =
      (ProcessDb.newest100 s.processes).map ProcessDb.key ++ [] := (List.append_nil _).symm
  have hmore : (ProcessDb.newest100 s.processes).map ProcessDb.key ≠ [] := by
    intro hnil
    exact hne (ProcessDb.newest100_eq_nil.1 (List.map_eq_nil_iff.1 hnil))
  have hout : s.processes.length ∉ (ProcessDb.newest100 s.processes).map ProcessDb.key := by
    intro hin
    obtain ⟨p, hp, hkey⟩ := List.mem_map.1 hin
    exact absurd hkey (Nat.ne_of_lt (h.key_lt (hperm.mem_iff.1 hp)))
  obtain ⟨ops, hops⟩ := ends_early hcount h hkeys hmore (fun q _ hq => absurd hq List.not_mem_nil)
    (Nat.lt_of_le_of_ne h.length hpart) hout
  exact hops (hall ops)

end Early

/-! ## Main result -/

/-- **A job ends soundly.** For a job at rest whose last container to run has run before, unless none has: under every
schedule `job_ttl` brings its next run to its end only after each container has run and exited in it, exactly if no
container exists yet, or each has its row and there is only one or none ever ran. -/
theorem ends_soundly_iff (E : Env) (hcount : E.count ≤ 100) {s : St} (h : AtRest E s)
    (hlast : (∀ p ∈ s.processes, Untouched p) ∨
      ∃ p, (ProcessDb.newest100 s.processes).getLast? = some p ∧ ¬ Untouched p) :
    (∀ ops, EndsSoundly E (run (step E) (requested s) ops)) ↔
      s.processes = [] ∨ (s.processes.length = E.count ∧ (E.count ≤ 1 ∨ ∀ p ∈ s.processes, Untouched p)) := by
  constructor
  · intro hall
    by_contra hnot
    obtain ⟨hne, hbad⟩ := not_or.1 hnot
    by_cases hfull : s.processes.length = E.count
    · obtain ⟨hmany, hran⟩ := not_or.1 (not_and.1 hbad hfull)
      obtain ⟨p, hlast, hp⟩ := hlast.resolve_left hran
      exact not_soundly_of_last hcount h hfull hmany hlast hp hall
    · exact not_soundly_of_missing hcount h hne hfull hall
  · rintro (hnil | ⟨hlength, hone | hfresh⟩) ops
    · exact endsSoundly_of_fresh hcount h (.inl hnil) ops
    · by_cases hnil : s.processes = []
      · exact endsSoundly_of_fresh hcount h (.inl hnil) ops
      · exact endsSoundly_of_single hone h hnil ops
    · exact endsSoundly_of_fresh hcount h (.inr ⟨hlength, hfresh⟩) ops

/-- a job of two containers, both of which have run well -/
def buildEnv : Env := ⟨"build", "node-1", 2, fun i => if i = 0 then "build-0-a.j" else "build-1-b.j", fun i => i⟩

def builtState : St where
  containers i := if i < 2 then some exitedState else none
  processes := [buildEnv.row 0 exitedState, buildEnv.row 1 exitedState]
  actual := .finish
  start := .done
  messages := []
  handler := .idle
  dies := 0
  loop := .idle
  exited _ := true

theorem builtState_atRest : AtRest buildEnv builtState := by
  refine ⟨rfl, rfl, rfl, rfl, by decide, by decide, fun p hp => ?_, fun i hi => ?_⟩
  · simp only [builtState, List.mem_cons, List.not_mem_nil, or_false] at hp
    rcases hp with rfl | rfl
    · exact ⟨endTime, 0, some "", rfl, rfl⟩
    · exact ⟨endTime, 0, some "", rfl, rfl⟩
  · have hi' : ¬ i < 2 := Nat.not_lt.2 hi
    exact if_neg hi'

/-- run again, the job can end before its second container has run -/
theorem rerun_ends_early : ¬ ∀ ops, EndsSoundly buildEnv (run (step buildEnv) (requested builtState) ops) := by
  rw [ends_soundly_iff buildEnv (by decide) builtState_atRest (.inr ⟨buildEnv.row 0 exitedState, rfl, by decide⟩)]
  rintro (hnil | ⟨-, hone | hall⟩)
  · cases hnil
  · exact absurd hone (by decide)
  · have huntouched := hall (buildEnv.row 0 exitedState) (List.mem_cons_self ..)
    revert huntouched
    decide

end Nanocl.JobCompletion
