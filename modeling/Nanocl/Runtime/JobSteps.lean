/-
A start of a job step by step (`utils/container/job.rs::start`).

`exec_event` runs a start in a task of its own and waits for no other start of the job, so the starts of a job overlap: each
of them is at some call while the others, the stops, the restart passes and the containers go on. `JobStart` is a start
between two of its calls, and `JobStart.step` makes the next call.

- `step_program`: a step is the beginning of what is left of the program, so that alone the steps are those of `startJob`.
- `startJob_steps`: alone, a start comes to its end, with the result and the world of `startJob`.
-/
import Nanocl.Runtime.Create

namespace Nanocl.Runtime

open Nanocl.Lib

/-- the name of the container of an element of the job -/
def Job.processName (job : Job) (index : ℕ) (shortId : String) : String :=
  job.name ++ "-" ++ toString index ++ "-" ++ shortId ++ ".j"

/-! ## Between two calls -/

/-- the call that comes next; `processes` are those created so far -/
inductive Pc where
  | reading
  | listing (job : Job)
  | downloading (job : Job) (processes : List ProcessDb) (container : Config)
  | loading (job : Job) (processes : List ProcessDb) (container : Config)
  | securing (job : Job) (processes : List ProcessDb) (container : Config) (envSecrets : List String)
  | creating (job : Job) (processes : List ProcessDb) (container : Config) (envSecrets : List String) (secretDir : String)
  | inspecting (job : Job) (processes : List ProcessDb) (name : String) (id : ContainerId)
  | inserting (job : Job) (processes : List ProcessDb) (process : ProcessDb)
  | reporting (job : Job) (processes : List ProcessDb)
  | emitting (job : Job) (processes : List ProcessDb)
  | starting (job : Job) (process : ProcessDb) (processes : List ProcessDb)
  | waiting (job : Job) (process : ProcessDb) (processes : List ProcessDb)
  | returned (job : Job)
  | failed (error : IoError)
deriving DecidableEq

/-- the loop of `create_instances`, before its next element -/
def Pc.create (job : Job) (processes : List ProcessDb) : Pc :=
  match job.containers[processes.length]? with
  | none => .reporting job processes
  | some container => .downloading job processes container

/-- the loop of `start`, before its next process -/
def Pc.run (job : Job) : List ProcessDb → Pc
  | [] => .returned job
  | p :: processes => .starting job p processes

/-- what a start did to a container -/
inductive RunEvent where
  | started (id : ContainerId) (name : String) (config : Config)
  | ended (id : ContainerId)
deriving DecidableEq

/-- a start, with what it did so far -/
structure JobStart where
  pc : Pc
  events : List RunEvent
deriving DecidableEq

section Step

variable (E : Env)

/-- `generate_short_id` and the creation of the container -/
def createNamed (job : Job) (index : ℕ) (item : Config) : Io (String × ContainerId) := do
  let (draw, shortId) ← generateShortId E
  let id ← orThrow "CreateProcess" (createContainer E draw (job.processName index shortId) (processConfig .job item))
  return (job.processName index shortId, id)

/-- the inspection of the container, and the row made of it -/
def inspectNamed (job : Job) (name : String) (id : ContainerId) : Io ProcessDb := do
  let container ← orThrow "CreateProcess" (inspectContainer E id)
  return ⟨id, name, .job, job.name, E.hostname, container.created, container.inspect id, rfl⟩

/-- a call that ends the start if it fails -/
def JobStart.after {α : Type} (s : JobStart) (r : Except IoError α × World) (next : α → Pc) : JobStart × World :=
  match r with
  | (.ok a, w) => ({ s with pc := next a }, w)
  | (.error e, w) => ({ s with pc := .failed e }, w)

/-- docker started the container -/
def startedEvents (w : World) (id : ContainerId) (r : Except DockerError ℤ) : List RunEvent :=
  match r, w.docker.containers id with
  | .ok _, some c => [.started id c.name c.config]
  | _, _ => []

/-- the next call of a start -/
def JobStart.step (key : String) (s : JobStart) (w : World) : JobStart × World :=
  match s.pc with
  | .reading => s.after (readJob E.alone key w) .listing
  | .listing job => s.after (readByKindKey E.alone job.name none w) fun existing =>
      if existing.isEmpty then .create job [] else .reporting job existing
  | .downloading job processes container =>
    s.after (download E.alone (container.image.getD "") job.imagePullSecret (job.imagePullPolicy.getD .ifNotPresent) w)
      fun _ => .loading job processes container
  | .loading job processes container =>
    s.after (loadEnvSecrets E.alone job.secrets w) (.securing job processes container)
  | .securing job processes container envSecrets =>
    s.after (createTlsSecrets E.alone job.name .job job.secrets w) (.creating job processes container envSecrets)
  | .creating job processes container envSecrets secretDir =>
    s.after (createNamed E.alone job processes.length (jobConfig job container envSecrets secretDir) w) fun created =>
      .inspecting job processes created.1 created.2
  | .inspecting job processes name id => s.after (inspectNamed E.alone job name id w) (.inserting job processes)
  | .inserting job processes process =>
    s.after (insertProcess E.alone process w) fun process => .create job (processes ++ [process])
  | .reporting job processes => s.after (updateActualStatus E.alone key .start w) fun _ => .emitting job processes
  | .emitting job processes => s.after (emitNormal E.alone .job job.name .start w) fun _ => .run job processes
  | .starting job process processes =>
    -- the result of the start is discarded
    match startContainer E.alone (.id process.key) w with
    | (.ok r, w') => (⟨.waiting job process processes, s.events ++ startedEvents w process.key r⟩, w')
    | (.error e, w') => ({ s with pc := .failed e }, w')
  | .waiting job process processes =>
    match orInterrupted "JobCreate" (waitContainer E.alone (.id process.key)) w with
    | (.ok _, w') => (⟨.run job processes, s.events ++ [.ended process.key]⟩, w')
    | (.error e, w') => ({ s with pc := .failed e }, w')
  | .returned _ | .failed _ => (s, w)

end Step

/-! ## What is left of the program -/

section Program

variable (E : Env) (key : String)

/-- the end of a start, from its processes on -/
def Pc.finish (job : Job) (processes : List ProcessDb) : Io Unit := do
  updateActualStatus E key .start
  emitNormal E .job job.name .start
  Prog.forEach processes (runProcess E)

/-- the elements behind those created -/
def Pc.createRest (job : Job) (processes : List ProcessDb) : Io Unit := do
  let rest ← createInstancesFrom E job processes.length (job.containers.drop processes.length)
  Pc.finish E key job (processes ++ rest)

/-- the end of the creation of an element, with the row made of it -/
def Pc.insert (job : Job) (processes : List ProcessDb) (process : ProcessDb) : Io Unit := do
  let process ← insertProcess E process
  Pc.createRest E key job (processes ++ [process])

def Pc.inspect (job : Job) (processes : List ProcessDb) (name : String) (id : ContainerId) : Io Unit := do
  let process ← inspectNamed E job name id
  Pc.insert E key job processes process

def Pc.createElement (job : Job) (processes : List ProcessDb) (container : Config) (envSecrets : List String)
    (secretDir : String) : Io Unit := do
  let created ← createNamed E job processes.length (jobConfig job container envSecrets secretDir)
  Pc.inspect E key job processes created.1 created.2

def Pc.secure (job : Job) (processes : List ProcessDb) (container : Config) (envSecrets : List String) : Io Unit := do
  let secretDir ← createTlsSecrets E job.name .job job.secrets
  Pc.createElement E key job processes container envSecrets secretDir

def Pc.load (job : Job) (processes : List ProcessDb) (container : Config) : Io Unit := do
  let envSecrets ← loadEnvSecrets E job.secrets
  Pc.secure E key job processes container envSecrets

/-- what is left to do -/
def Pc.program : Pc → Io Unit
  | .reading => startJob E key
  | .listing job => do
    let existing ← readByKindKey E job.name none
    let processes ← if existing.isEmpty then createInstances E job else pure existing
    Pc.finish E key job processes
  | .downloading job processes container => do
    download E (container.image.getD "") job.imagePullSecret (job.imagePullPolicy.getD .ifNotPresent)
    Pc.load E key job processes container
  | .loading job processes container => Pc.load E key job processes container
  | .securing job processes container envSecrets => Pc.secure E key job processes container envSecrets
  | .creating job processes container envSecrets secretDir =>
    Pc.createElement E key job processes container envSecrets secretDir
  | .inspecting job processes name id => Pc.inspect E key job processes name id
  | .inserting job processes process => Pc.insert E key job processes process
  | .reporting job processes => Pc.finish E key job processes
  | .emitting job processes => do
    emitNormal E .job job.name .start
    Prog.forEach processes (runProcess E)
  | .starting _ process processes => Prog.forEach (process :: processes) (runProcess E)
  | .waiting _ process processes => do
    let _ ← orInterrupted "JobCreate" (waitContainer E (.id process.key))
    Prog.forEach processes (runProcess E)
  | .returned _ => return ()
  | .failed error => Prog.fail error

end Program

section Follows

variable {E : Env} {key : String}

/-- the loop of the creation, one element after the other -/
theorem program_create (job : Job) (processes : List ProcessDb) :
    (Pc.create job processes).program E key = Pc.createRest E key job processes := by
  unfold Pc.create Pc.createRest
  cases h : job.containers[processes.length]? with
  | none =>
    rw [List.drop_eq_nil_of_le (List.getElem?_eq_none_iff.1 h)]
    simp [createInstancesFrom, Pc.program]
  | some container =>
    obtain ⟨hlt, rfl⟩ := List.getElem?_eq_some_iff.1 h
    rw [List.drop_eq_getElem_cons hlt]
    simp only [createInstancesFrom, createJobInstance, createProcess, Pc.program, Pc.load, Pc.secure, Pc.createElement,
      Pc.inspect, Pc.insert, Pc.createRest, createNamed, inspectNamed, bind_assoc, pure_bind, List.length_append,
      List.length_singleton, List.append_assoc, List.singleton_append]
    rfl

theorem program_run (job : Job) (processes : List ProcessDb) :
    (Pc.run job processes).program E key = Prog.forEach processes (runProcess E) := by
  cases processes <;> rfl

/-- the first call of the program, and what is left of it -/
theorem after_program {α : Type} {m : Io α} {f : α → Io Unit} {next : α → Pc} (s : JobStart) (w : World)
    (h : ∀ a, (next a).program E key = f a) :
    (m >>= f) w = (s.after (m w) next).1.pc.program E key (s.after (m w) next).2 := by
  rcases hm : m w with ⟨e | a, w'⟩
  · rw [Prog.bind_of_error hm]
    rfl
  · rw [Prog.bind_of_ok hm, JobStart.after, h]

/-- **A step is the beginning of what is left of the program.** -/
theorem step_program (s : JobStart) (w : World) :
    s.pc.program E.alone key w = (s.step E key w).1.pc.program E.alone key (s.step E key w).2 := by
  obtain ⟨pc, events⟩ := s
  cases pc with
  | reading =>
    simp only [JobStart.step]
    rw [Pc.program, startJob]
    refine after_program _ w fun job => ?_
    rw [Pc.program]
    unfold Pc.finish
    rfl
  | listing job =>
    simp only [JobStart.step]
    rw [Pc.program]
    refine after_program _ w fun existing => ?_
    cases existing with
    | nil => exact program_create job []
    | cons _ _ => rfl
  | downloading job processes container =>
    simp only [JobStart.step]
    rw [Pc.program]
    exact after_program _ w fun _ => rfl
  | loading job processes container =>
    simp only [JobStart.step]
    rw [Pc.program]
    exact after_program _ w fun _ => rfl
  | securing job processes container envSecrets =>
    simp only [JobStart.step]
    rw [Pc.program]
    exact after_program _ w fun _ => rfl
  | creating job processes container envSecrets secretDir =>
    simp only [JobStart.step]
    rw [Pc.program]
    exact after_program _ w fun _ => rfl
  | inspecting job processes name id =>
    simp only [JobStart.step]
    rw [Pc.program]
    exact after_program _ w fun _ => rfl
  | inserting job processes process =>
    simp only [JobStart.step]
    rw [Pc.program]
    exact after_program _ w fun _ => program_create _ _
  | reporting job processes =>
    simp only [JobStart.step]
    rw [Pc.program]
    exact after_program _ w fun _ => rfl
  | emitting job processes =>
    simp only [JobStart.step]
    rw [Pc.program]
    exact after_program _ w fun _ => program_run _ _
  | starting job process processes =>
    simp only [JobStart.step]
    rw [Pc.program, Prog.forEach, runProcess, bind_assoc]
    rcases hm : startContainer E.alone (.id process.key) w with ⟨e | r, w'⟩
    · rw [Prog.bind_of_error hm]
      rfl
    · rw [Prog.bind_of_ok hm]
      exact Prog.discard_bind _ _ w'
  | waiting job process processes =>
    simp only [JobStart.step]
    rw [Pc.program]
    rcases hm : orInterrupted "JobCreate" (waitContainer E.alone (.id process.key)) w with ⟨e | r, w'⟩
    · rw [Prog.bind_of_error hm]
      rfl
    · rw [Prog.bind_of_ok hm]
      exact (congrFun (program_run job processes) w').symm
  | returned job => rfl
  | failed error => rfl

/-! ## A start alone -/

/-- the start is over -/
def Pc.final : Pc → Prop
  | .returned _ | .failed _ => True
  | _ => False

/-- step by step the start comes to its end, which is the one of the program that is left -/
def Ends (E : Env) (key : String) (s : JobStart) (w : World) : Prop :=
  ∃ n s' w', (fun x : JobStart × World => x.1.step E key x.2)^[n] (s, w) = (s', w') ∧ s'.pc.final ∧
    s'.pc.program E.alone key w' = s.pc.program E.alone key w

theorem Ends.of_final {s : JobStart} {w : World} (h : s.pc.final) : Ends E key s w := ⟨0, s, w, rfl, h, rfl⟩

theorem Ends.of_step {s : JobStart} {w : World} (h : Ends E key (s.step E key w).1 (s.step E key w).2) :
    Ends E key s w := by
  obtain ⟨n, s', w', hrun, hfinal, hprogram⟩ := h
  exact ⟨n + 1, s', w', hrun, hfinal, hprogram.trans (step_program s w).symm⟩

/-- a call that ends the start if it fails -/
theorem ends_after {α : Type} {pc : Pc} {events : List RunEvent} {m : Io α} {next : α → Pc}
    (hstep : ∀ w, JobStart.step E key ⟨pc, events⟩ w = JobStart.after ⟨pc, events⟩ (m w) next)
    (h : ∀ a w, Ends E key ⟨next a, events⟩ w) (w : World) : Ends E key ⟨pc, events⟩ w := by
  refine .of_step ?_
  rw [hstep]
  rcases m w with ⟨e | a, w'⟩
  · exact .of_final trivial
  · exact h a w'

theorem ends_run (job : Job) (processes : List ProcessDb) (events : List RunEvent) (w : World) :
    Ends E key ⟨.run job processes, events⟩ w := by
  induction processes generalizing events w with
  | nil => exact .of_final trivial
  | cons p processes ih =>
    have hwait (events : List RunEvent) (w : World) : Ends E key ⟨.waiting job p processes, events⟩ w := by
      refine .of_step ?_
      simp only [JobStart.step]
      rcases orInterrupted "JobCreate" (waitContainer E.alone (.id p.key)) w with ⟨e | r, w'⟩
      · exact .of_final trivial
      · exact ih _ w'
    refine .of_step ?_
    simp only [Pc.run, JobStart.step]
    rcases startContainer E.alone (.id p.key) w with ⟨e | r, w'⟩
    · exact .of_final trivial
    · exact hwait _ w'

theorem ends_report (job : Job) (processes : List ProcessDb) (events : List RunEvent) (w : World) :
    Ends E key ⟨.reporting job processes, events⟩ w := by
  refine ends_after (fun _ => rfl) (fun _ => ?_) w
  exact ends_after (m := emitNormal E.alone .job job.name .start) (fun _ => rfl) fun _ => ends_run job processes events

/-- the creation of an element has its six calls -/
theorem ends_create (job : Job) (n : ℕ) (processes : List ProcessDb) (hn : job.containers.length - processes.length = n)
    (events : List RunEvent) (w : World) : Ends E key ⟨.create job processes, events⟩ w := by
  induction n generalizing processes w with
  | zero =>
    rw [Pc.create, List.getElem?_eq_none (Nat.sub_eq_zero_iff_le.1 hn)]
    exact ends_report job processes events w
  | succ n ih =>
    have hlt : processes.length < job.containers.length := by omega
    rw [Pc.create, List.getElem?_eq_getElem hlt]
    refine ends_after (fun _ => rfl) (fun _ => ?_) w
    refine ends_after (fun _ => rfl) fun _ => ?_
    refine ends_after (fun _ => rfl) fun _ => ?_
    refine ends_after (fun _ => rfl) fun _ => ?_
    refine ends_after (fun _ => rfl) fun p => ?_
    refine ends_after (m := insertProcess E.alone p) (fun _ => rfl) fun p => ih (processes ++ [p]) ?_
    rw [List.length_append, List.length_singleton]
    omega

/-- **Alone, the steps of a start are those of `startJob`**: they come to its end, with its result and its world. -/
theorem startJob_steps (E : Env) (key : String) (w : World) :
    ∃ n s w', (fun x : JobStart × World => x.1.step E key x.2)^[n] (⟨.reading, []⟩, w) = (s, w') ∧
      ((∃ job, s.pc = .returned job ∧ startJob E.alone key w = (.ok (), w')) ∨
        ∃ e, s.pc = .failed e ∧ startJob E.alone key w = (.error e, w')) := by
  have hends : Ends E key ⟨.reading, []⟩ w := by
    refine ends_after (fun _ => rfl) (fun job => ?_) w
    have hstep (w : World) : JobStart.step E key ⟨.listing job, []⟩ w = JobStart.after ⟨.listing job, []⟩
        (readByKindKey E.alone job.name none w) fun existing =>
          if existing.isEmpty then .create job [] else .reporting job existing := by
      simp only [JobStart.step]
    refine ends_after hstep fun existing w => ?_
    split_ifs
    · exact ends_create job _ [] rfl [] w
    · exact ends_report job existing [] w
  obtain ⟨n, s, w', hrun, hfinal, hprogram⟩ := hends
  have hprogram : s.pc.program E.alone key w' = startJob E.alone key w := hprogram
  refine ⟨n, s, w', hrun, ?_⟩
  cases hpc : s.pc with
  | returned job =>
    rw [hpc] at hprogram
    exact .inl ⟨job, rfl, hprogram.symm⟩
  | failed e =>
    rw [hpc] at hprogram
    exact .inr ⟨e, rfl, hprogram.symm⟩
  | _ =>
    rw [hpc] at hfinal
    exact hfinal.elim

end Follows

end Nanocl.Runtime
