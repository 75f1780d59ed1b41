/-
What a creation that fails leaves behind (`objects/cargo.rs`, `vm.rs`, `job.rs`: `fn_create_obj`).

A creation is three to five writes, one after the other. Nothing undoes the first ones where a later one is refused:
- a cargo: its spec, its status, its row. Whether the name is free is found out by the insertion of the status, when the
  spec already is in the history of the cargo of that name.
- a VM: the file of its disk, the row of the disk, its status, its spec, its row.
- a job: its status, its row, the rule in the crontab.

- `atomic_iff`: a creation is all or nothing exactly if it completes wherever it gets as far as its first write.
- `duplicate_joins_history`: a second cargo of one name is refused, and its spec stays in the history of the first.
-/
import Nanocl.Objects.Vm
import Nanocl.Objects.Job

namespace Nanocl.Objects

open Nanocl.Lib Nanocl.Status

variable {δ : Type} (E : Env δ)

inductive CreateRequest (δ : Type) where
  | cargo (obj : CargoObjCreateIn δ)
  | vm (obj : VmObjCreateIn δ)
  | job (obj : JobPartial δ)

/-- the tables that a creation writes, the image files and the crontab are as they were -/
structure Unchanged (w w' : World δ) : Prop where
  specs : w'.db.specs = w.db.specs
  statuses : w'.db.statuses = w.db.statuses
  cargoes : w'.db.cargoes = w.db.cargoes
  vms : w'.db.vms = w.db.vms
  jobs : w'.db.jobs = w.db.jobs
  vmImages : w'.db.vmImages = w.db.vmImages
  files : w'.files = w.files
  crontab : w'.crontab = w.crontab

theorem unchanged_after (w : World δ) (k : ℕ) : Unchanged w (w.after k w.db) := ⟨rfl, rfl, rfl, rfl, rfl, rfl, rfl, rfl⟩

/-! ## Jobs -/

/-- the creation of a job gets as far as storing its status -/
structure JobBegins (w : World δ) (obj : JobPartial δ) : Prop where
  answers : E.fault w.calls = none
  status : w.db.statuses.find obj.name = none

/-- nothing goes wrong after that; a schedule takes four calls -/
structure JobCompletes (w : World δ) (obj : JobPartial δ) : Prop where
  answers : E.Answers (w.after 1 w.db) (1 + if obj.schedule.isSome then 4 else 0)
  row : w.db.jobs.find obj.name = none

variable {E}

/-- a program that returns exactly if its `n` calls answer, and leaves the database as it is -/
structure Sure (E : Env δ) (m : Io δ Unit) (n : ℕ) : Prop where
  ok : ∀ w, E.Answers w n → ∃ w', m w = (.ok (), w') ∧ w'.db = w.db ∧ w'.calls = w.calls + n
  error : ∀ w, ¬ E.Answers w n → ∃ e w', m w = (.error e, w') ∧ w'.db = w.db

theorem sure_call {f : World δ → World δ} (hdb : ∀ w, (f w).db = w.db) (hcalls : ∀ w, (f w).calls = w.calls) :
    Sure E (call E fun w => (.ok (), f w)) 1 where
  ok w h := ⟨f w.tick, call_of_answer (Env.answers_one.1 h), hdb _, hcalls _⟩
  error w h := by
    rw [Env.answers_one] at h
    obtain ⟨e, he⟩ := Option.ne_none_iff_exists'.1 h
    exact ⟨e, w.tick, call_of_fault he, rfl⟩

theorem sure_bind {m m' : Io δ Unit} {n k : ℕ} (hm : Sure E m n) (hm' : Sure E m' k) :
    Sure E (m >>= fun _ => m') (n + k) where
  ok w h := by
    obtain ⟨h1, h2⟩ := (Env.answers_add w.db).1 h
    obtain ⟨w₁, hrun, hdb, hcalls⟩ := hm.ok w h1
    have h2' : E.Answers w₁ k := fun i hi => by
      rw [hcalls]
      exact h2 i hi
    obtain ⟨w₂, hrun₂, hdb₂, hcalls₂⟩ := hm'.ok w₁ h2'
    exact ⟨w₂, (Prog.bind_of_ok hrun).trans hrun₂, hdb₂.trans hdb, by rw [hcalls₂, hcalls, Nat.add_assoc]⟩
  error w h := by
    by_cases h1 : E.Answers w n
    · obtain ⟨w₁, hrun, hdb, hcalls⟩ := hm.ok w h1
      obtain ⟨e, w₂, hrun₂, hdb₂⟩ := hm'.error w₁ fun h2 => h ((Env.answers_add w.db).2 ⟨h1, fun i hi => by
        have := h2 i hi
        rwa [hcalls] at this⟩)
      exact ⟨e, w₂, (Prog.bind_of_ok hrun).trans hrun₂, hdb₂.trans hdb⟩
    · obtain ⟨e, w₁, hrun, hdb⟩ := hm.error w h1
      exact ⟨e, w₁, Prog.bind_of_error hrun, hdb⟩

theorem sure_addCronRule (job : Job δ) (schedule : String) : Sure E (addCronRule E job schedule) 4 := by
  have hexec : Sure E (execCrontab E) 1 := by
    refine sure_call (f := fun w => if E.crontabAccepts w.tmpCrontab then { w with crontab := w.tmpCrontab } else w)
      (fun w => ?_) fun w => ?_
    · split <;> rfl
    · split <;> rfl
  have hcopy : Sure E (call E fun w => (.ok (), { w with tmpCrontab := w.crontab })) 1 :=
    sure_call (f := fun w => { w with tmpCrontab := w.crontab }) (fun _ => rfl) fun _ => rfl
  have hopen : Sure E (call E fun w => (.ok (), w)) 1 := sure_call (f := fun w => w) (fun _ => rfl) fun _ => rfl
  have hadd : Sure E (call E fun w => (.ok (), { w with
      tmpCrontab := w.tmpCrontab ++ (schedule ++ " " ++ formatCronJobCommand E job ++ "\n") })) 1 :=
    sure_call (f := fun w => { w with
        tmpCrontab := w.tmpCrontab ++ (schedule ++ " " ++ formatCronJobCommand E job ++ "\n") })
      (fun _ => rfl) fun _ => rfl
  exact sure_bind hcopy (sure_bind hopen (sure_bind hadd hexec))

theorem createJob_ok {w : World δ} (row : JobDb δ) (h : E.fault w.calls = none) (hfree : w.db.jobs.find row.key = none)
    (hst : (w.db.statuses.find row.statusKey).isSome) :
    ∃ t, w.db.jobs.insert row = some t ∧ createJob E row w = (.ok row, w.after 1 { w.db with jobs := t }) := by
  obtain ⟨t, ht⟩ := Table.insert_of_find hfree
  refine ⟨t, ht, Prog.bind_of_ok (exec_of_ok h ?_)⟩
  rw [insertJob, ht]
  exact if_pos hst

theorem createJob_error {w : World δ} (row : JobDb δ)
    (h : ¬ (E.fault w.calls = none ∧ w.db.jobs.find row.key = none)) :
    ∃ e, createJob E row w = (.error e, w.tick) := by
  cases hf : E.fault w.calls with
  | some e => exact ⟨e, Prog.bind_of_error (by rw [exec, call_of_fault hf])⟩
  | none =>
    have hnone : w.db.jobs.insert row = none := Table.insert_eq_none.2 fun hfree => h ⟨hf, hfree⟩
    exact ⟨_, Prog.bind_of_error (exec_of_error hf (by rw [insertJob, hnone]))⟩

/-- the creation of a job stores nothing, or its status and perhaps its row -/
theorem createJobObj_cases {obj : JobPartial δ} {w w' : World δ} {r : Except HttpError (Job δ)}
    (h : createJobObj E obj w = (r, w')) :
    (∃ e, r = .error e ∧ w' = w.tick ∧ ¬ JobBegins E w obj) ∨
      (JobBegins E w obj ∧ ((JobCompletes E w obj ∧ ∃ job, r = .ok job) ∨
        (¬ JobCompletes E w obj ∧ ∃ e st, r = .error e ∧ w.db.statuses.insert ⟨obj.name, created⟩ = some st ∧
          w'.db.statuses = st))) := by
  by_cases hst : E.fault w.calls = none ∧ w.db.statuses.find obj.name = none
  · refine .inr ⟨⟨hst.1, hst.2⟩, ?_⟩
    obtain ⟨st, hsti, hrun⟩ := createStatus_ok (E := E) (w := w) ⟨obj.name, created⟩ hst.1 hst.2
    have hkey : (st.find obj.name).isSome := Option.isSome_iff_exists.2 ⟨_, Table.find_insert_self hsti⟩
    set w₁ := w.after 1 { w.db with statuses := st } with hw₁
    rw [createJobObj, Prog.bind_of_ok hrun] at h
    change (createJob E (tryFromJobPartial E obj) >>= _) w₁ = _ at h
    by_cases hjob : E.fault (w.calls + 1) = none ∧ w.db.jobs.find obj.name = none
    · obtain ⟨t, ht, hrun⟩ := createJob_ok (E := E) (w := w₁) (tryFromJobPartial E obj) hjob.1 hjob.2 hkey
      have hread : (ofExcept (tryToJob E (tryFromJobPartial E obj) created) : Io δ (Job δ))
          (w₁.after 1 { w₁.db with jobs := t }) = (.ok ⟨obj, created⟩, w₁.after 1 { w₁.db with jobs := t }) := by
        rw [run_ofExcept, tryToJob_tryFrom]
      rw [Prog.bind_of_ok hrun, Prog.bind_of_ok hread] at h
      cases hsched : obj.schedule with
      | none =>
        simp only [hsched] at h
        obtain ⟨rfl, rfl⟩ := Prod.mk.inj h
        refine .inl ⟨⟨?_, hjob.2⟩, _, rfl⟩
        rw [hsched]
        exact Env.answers_one.2 hjob.1
      | some schedule =>
        simp only [hsched] at h
        have hcron := sure_addCronRule (E := E) ⟨obj, created⟩ schedule
        by_cases h4 : E.Answers (w₁.after 1 { w₁.db with jobs := t }) 4
        · obtain ⟨w₂, hrun₂, -⟩ := hcron.ok _ h4
          rw [Prog.bind_of_ok hrun₂] at h
          obtain ⟨rfl, rfl⟩ := Prod.mk.inj h
          refine .inl ⟨⟨?_, hjob.2⟩, _, rfl⟩
          rw [hsched]
          exact (Env.answers_add (m := 1) (n := 4) { w₁.db with jobs := t }).2 ⟨Env.answers_one.2 hjob.1, h4⟩
        · obtain ⟨e, w₂, hrun₂, hdb⟩ := hcron.error _ h4
          rw [Prog.bind_of_error hrun₂] at h
          obtain ⟨rfl, rfl⟩ := Prod.mk.inj h
          refine .inr ⟨fun hc => h4 ?_, e, st, rfl, hsti, by rw [hdb]; rfl⟩
          have ha := hc.answers
          rw [hsched] at ha
          exact ((Env.answers_add (m := 1) (n := 4) { w₁.db with jobs := t }).1 ha).2
    · obtain ⟨e, hrun⟩ := createJob_error (E := E) (w := w₁) (tryFromJobPartial E obj) hjob
      rw [Prog.bind_of_error hrun] at h
      obtain ⟨rfl, rfl⟩ := Prod.mk.inj h
      refine .inr ⟨fun hc => hjob ⟨?_, hc.row⟩, e, st, rfl, hsti, rfl⟩
      exact hc.answers 0 (by omega)
  · obtain ⟨e, hrun⟩ := createStatus_error (E := E) (w := w) ⟨obj.name, created⟩ hst
    rw [createJobObj, Prog.bind_of_error hrun] at h
    obtain ⟨rfl, rfl⟩ := Prod.mk.inj h
    exact .inl ⟨e, rfl, rfl, fun hb => hst ⟨hb.answers, hb.status⟩⟩

/-! ## All kinds -/

namespace CreateRequest

def run (E : Env δ) : CreateRequest δ → Io δ Unit
  | cargo obj => do
    let _ ← createCargo E obj
    return ()
  | vm obj => do
    let _ ← createVm E obj
    return ()
  | job obj => do
    let _ ← createJobObj E obj
    return ()

/-- the request gets as far as its first write: a spec, the file of a disk (with its row, or with other content than
before), a status -/
def Writes (E : Env δ) (w : World δ) : CreateRequest δ → Prop
  | cargo obj => CargoBegins E w obj
  | vm obj => ∃ image, VmPrepared E w obj image ∧ SnapBegins E (w.after 2 w.db) (obj.snapName image) image ∧
      (SnapStored E (w.after 2 w.db) (obj.snapName image) obj.size image ∨
        snapContent E (w.after 2 w.db) (obj.snapName image) obj.size image ≠ w.files (imagePath E (obj.snapName image)))
  | job obj => JobBegins E w obj

/-- nothing goes wrong after that -/
def Completes (E : Env δ) (w : World δ) : CreateRequest δ → Prop
  | cargo obj => CargoCompletes E w obj
  | vm obj => (∀ image, VmPrepared E w obj image → SnapStored E (w.after 2 w.db) (obj.snapName image) obj.size image) ∧
      VmCompletes E w obj
  | job obj => JobCompletes E w obj

/-- the ends of a creation: without a trace, with all done, or with something left behind -/
inductive Ends (E : Env δ) (req : CreateRequest δ) (w : World δ) : Prop where
  | refused (e : HttpError) (w' : World δ) (hrun : req.run E w = (.error e, w')) (h : Unchanged w w')
      (hw : ¬ req.Writes E w)
  | done (w' : World δ) (hrun : req.run E w = (.ok (), w')) (hc : req.Completes E w)
  | left (e : HttpError) (w' : World δ) (hrun : req.run E w = (.error e, w')) (h : ¬ Unchanged w w')
      (hw : req.Writes E w) (hc : ¬ req.Completes E w)

theorem cargo_ends (obj : CargoObjCreateIn δ) (w : World δ) : Ends E (cargo obj) w := by
  rcases hrun : createCargo E obj w with ⟨r, w'⟩
  rcases createCargo_cases hrun with ⟨e, k, rfl, rfl, hno⟩ | ⟨t, hb, ht, ⟨e, k, rfl, hno, rfl⟩ |
    ⟨e, k, st, rfl, hno, -, rfl⟩ | ⟨c, st, ct, rfl, hc, -, -, rfl⟩⟩
  · exact .refused e _ (Prog.bind_of_error hrun) (unchanged_after w k) hno
  · exact .left e _ (Prog.bind_of_error hrun) (fun h => Table.ne_of_insert ht h.specs) hb hno
  · exact .left e _ (Prog.bind_of_error hrun) (fun h => Table.ne_of_insert ht h.specs) hb hno
  · exact .done _ (Prog.bind_of_ok hrun) hc

theorem vm_ends (obj : VmObjCreateIn δ) (w : World δ) : Ends E (vm obj) w := by
  rcases hrun : createVm E obj w with ⟨r, w'⟩
  rcases createVm_cases hrun with ⟨e, k, rfl, rfl, hno⟩ | ⟨image, hprep, hb, ⟨e, k, rfl, hno, rfl⟩ |
    ⟨t, st, sp, hs, hsome, ht, ⟨e, k, rfl, hno, -, rfl⟩ | ⟨v, vt, rfl, hc, -, -, -, rfl⟩⟩⟩
  · exact .refused e _ (Prog.bind_of_error hrun) (unchanged_after w k) fun ⟨image, hp, hb, _⟩ => hno image ⟨hp, hb⟩
  · have huniq : ∀ image', VmPrepared E w obj image' → image' = image := fun image' hp =>
      Option.some.inj (hp.found.symm.trans hprep.found)
    by_cases hfile : snapContent E (w.after 2 w.db) (obj.snapName image) obj.size image =
        w.files (imagePath E (obj.snapName image))
    · refine .refused e _ (Prog.bind_of_error hrun) ⟨rfl, rfl, rfl, rfl, rfl, rfl, ?_, rfl⟩ ?_
      · exact Function.update_eq_self_iff.2 hfile
      · rintro ⟨image', hp, -, h⟩
        rw [huniq image' hp] at h
        exact h.elim hno fun h => h hfile
    · refine .left e _ (Prog.bind_of_error hrun) (fun h => hfile ?_) ⟨image, hprep, hb, .inr hfile⟩ fun hc => hno (hc.1 image hprep)
      exact Function.update_eq_self_iff.1 h.files
  · exact .left e _ (Prog.bind_of_error hrun) (fun h => Table.ne_of_insert ht h.vmImages) ⟨image, hprep, hb, .inl hs⟩
      fun hc => hno hc.2
  · refine .done _ (Prog.bind_of_ok hrun) ⟨fun image' hp => ?_, hc⟩
    rw [Option.some.inj (hp.found.symm.trans hprep.found)]
    exact hs

theorem job_ends (obj : JobPartial δ) (w : World δ) : Ends E (job obj) w := by
  rcases hrun : createJobObj E obj w with ⟨r, w'⟩
  rcases createJobObj_cases hrun with ⟨e, rfl, rfl, hno⟩ | ⟨hb, ⟨hc, j, rfl⟩ | ⟨hno, e, st, rfl, hst, hdb⟩⟩
  · exact .refused e _ (Prog.bind_of_error hrun) (unchanged_after w 1) hno
  · exact .done _ (Prog.bind_of_ok hrun) hc
  · exact .left e _ (Prog.bind_of_error hrun) (fun h => Table.ne_of_insert hst (hdb ▸ h.statuses)) hb hno

theorem ends (req : CreateRequest δ) (w : World δ) : Ends E req w := by
  cases req with
  | cargo obj => exact cargo_ends obj w
  | vm obj => exact vm_ends obj w
  | job obj => exact job_ends obj w

end CreateRequest

/-- **A creation that fails has changed nothing exactly if it completes wherever it gets as far as its first write.** -/
theorem atomic_iff (E : Env δ) (req : CreateRequest δ) (w : World δ) :
    (∀ e w', req.run E w = (.error e, w') → Unchanged w w') ↔ (req.Writes E w → req.Completes E w) := by
  cases req.ends (E := E) w with
  | refused e w' hrun h hw =>
    refine iff_of_true (fun e' w'' h' => ?_) fun hw' => absurd hw' hw
    obtain ⟨-, rfl⟩ := Prod.mk.inj (hrun.symm.trans h')
    exact h
  | done w' hrun hc =>
    refine iff_of_true (fun e' w'' h' => ?_) fun _ => hc
    cases (Prod.mk.inj (hrun.symm.trans h')).1
  | left e w' hrun h hw hc => exact iff_of_false (fun hall => h (hall e w' hrun)) fun hall => hc (hall hw)

/-- the creation of a second cargo `web.global` is refused, and the history of the first has one more spec -/
theorem duplicate_joins_history :
    let req : CreateRequest Value := .cargo ⟨"global", webSpec, "v0.16"⟩
    ∃ e w', req.run Env.plain webWorld = (.error e, w') ∧ ¬ Unchanged webWorld w' := by
  intro req
  refine ⟨uniqueViolation Env.plain "ObjPsStatusDb", (req.run Env.plain webWorld).2, Prod.ext ?_ rfl, fun h => ?_⟩
  · decide
  · have hlen := congrArg (fun t => t.rows.length) h.specs
    revert hlen
    decide

end Nanocl.Objects
