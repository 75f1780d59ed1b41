/-
The creation of a job (`objects/job.rs`), with the cron rule of its schedule (`utils/cron.rs`).
-/
import Nanocl.Objects.Cargo
import Nanocl.Objects.Crontab

namespace Nanocl.Objects

open Nanocl.Lib Nanocl.Status

variable {δ : Type} (E : Env δ)

/-- `Job`: the name is that of the row -/
structure Job (δ : Type) extends JobPartial δ where
  status : ObjPsStatus

/-- `try_from_partial` -/
def tryFromJobPartial (p : JobPartial δ) : JobDb δ := ⟨p.name, p.name, E.job.toValue p, p.metadata⟩

/-- `JobDb::try_to_spec` -/
def tryToJob (row : JobDb δ) (status : ObjPsStatus) : Except HttpError (Job δ) := do
  let p ← serde (E.job.fromValue row.data)
  return { p with name := row.key, metadata := row.metadata, status := status }

@[simp] theorem tryToJob_tryFrom (p : JobPartial δ) (status : ObjPsStatus) :
    tryToJob E (tryFromJobPartial E p) status = .ok ⟨p, status⟩ := by
  simp [tryToJob, tryFromJobPartial, serde, E.job.fromValue_toValue, Except.mapError]

/-- `format_cron_job_command` -/
def formatCronJobCommand (job : Job δ) : String := Crontab.commandOf E.hosts E.version job.name

/-- `exec_crontab`: an error only where the program cannot be run, not where it refuses the file -/
def execCrontab : Io δ Unit := call E fun w =>
  (.ok (), if E.crontabAccepts w.tmpCrontab then { w with crontab := w.tmpCrontab } else w)

/-- `add_cron_rule`: copy the crontab, open the copy, add the rule to it, hand it over -/
def addCronRule (job : Job δ) (schedule : String) : Io δ Unit := do
  let cronRule := schedule ++ " " ++ formatCronJobCommand E job
  call E fun w => (.ok (), { w with tmpCrontab := w.crontab })
  call E fun w => (.ok (), w)
  call E fun w => (.ok (), { w with tmpCrontab := w.tmpCrontab ++ (cronRule ++ "\n") })
  execCrontab E

/-- the environment of a request, as the steps on the two files see it -/
def cronEnv (E : Env δ) : Crontab.Env Unit where
  hosts := E.hosts
  version := E.version
  fault _ _ := none
  accepts := E.crontabAccepts

/-- where its calls answer, a request adds its rule as a call does that no other one comes between -/
theorem addCronRule_ok (job : Job δ) (schedule : String) {w : World δ} (h : E.Answers w 4) :
    let crontab := Crontab.change (cronEnv E) w.crontab (.add ⟨job.name, schedule⟩)
    addCronRule E job schedule w = (.ok (), { w with
      crontab := if E.crontabAccepts crontab then crontab else w.crontab
      tmpCrontab := crontab
      calls := w.calls + 4 }) := by
  have hanswer : ∀ i < 4, ∀ (f : World δ → World δ) (w' : World δ), w'.calls = w.calls + i →
      call E (fun w => (.ok (), f w)) w' = (.ok (), f w'.tick) := by
    intro i hi f w' hw'
    exact call_of_answer (hw' ▸ h i hi)
  refine (Prog.bind_of_ok (hanswer 0 (by decide) _ w rfl)).trans ((Prog.bind_of_ok (hanswer 1 (by decide) id _ rfl)).trans
    ((Prog.bind_of_ok (hanswer 2 (by decide) _ _ rfl)).trans ((hanswer 3 (by decide) _ _ rfl).trans ?_)))
  by_cases haccepts : E.crontabAccepts (Crontab.change (cronEnv E) w.crontab (.add ⟨job.name, schedule⟩))
  · rw [if_pos haccepts]
    exact congrArg _ (if_pos haccepts)
  · rw [if_neg haccepts]
    exact congrArg _ (if_neg haccepts)

/-- `JobDb::fn_create_obj` -/
def createJobObj (obj : JobPartial δ) : Io δ (Job δ) := do
  let dbModel := tryFromJobPartial E obj
  let status ← createStatus E ⟨obj.name, created⟩
  let row ← createJob E dbModel
  let job ← ofExcept (tryToJob E row status)
  match job.schedule with
  | some schedule => do
    addCronRule E job schedule
    return job
  | none => return job

end Nanocl.Objects
