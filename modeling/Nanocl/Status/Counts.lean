/-
The counters of the instances of an object (`count_status` in `bin/nanocld/src/utils/container/generic.rs`). The end of a
job, its inspection and the summaries of cargoes and VMs rest on them.

An instance that restarts counts as failed and one that runs, or never started, as running. The others have ended: a
success or a failure by their exit code, and one more failure if they have an error, so that an exit code with an error
counts twice and neither of them not at all. An ended instance without `finished_at` panics.

- `oneClass_iff`: which instances are put into exactly one class.
- `foldlM_oneClass`: the counters of a list of them add up, and none runs exactly if no instance is put there.
- `counts_once_iff`: the counters meet their promise on a list exactly if each instance has one verdict and an instance
  that restarts is in the company of one that counts as running.
-/
import Nanocl.Store.Process

namespace Nanocl.Status

open Nanocl.Lib

/-! ## One instance -/

section

variable (c : ContainerInspect)

def Restarts : Prop := (c.state.getD .default).restarting.getD false = true

def Runs : Prop := (c.state.getD .default).running.getD false = true

/-- it has no finish time yet: unless it runs, it was created and never started -/
def NeverStarted : Prop := (c.state.getD .default).finishedAt = some "0001-01-01T00:00:00Z"

/-- it was started and has come to an end -/
def Exited : Prop := ¬ Restarts c ∧ ¬ Runs c ∧ ¬ NeverStarted c

/-- an error text that is not empty -/
def HasError : Prop := ∃ e, (c.state.getD .default).error = some e ∧ e ≠ ""

/-- the instance is put into exactly one class -/
def OneClass : Prop :=
  countInstance c = some (1, 0, 0) ∨ countInstance c = some (0, 1, 0) ∨ countInstance c = some (0, 0, 1)

/-- what `count_status` takes for running: it runs or never started, and does not restart -/
def CountsRunning : Prop := ¬ Restarts c ∧ (Runs c ∨ NeverStarted c)

/-- an instance that has ended has a finish time, and either an exit code or an error -/
def Classifiable : Prop :=
  Exited c → (c.state.getD .default).finishedAt ≠ none ∧
    ((c.state.getD .default).exitCode = none ↔ HasError c)

theorem countInstance_restarts (h : Restarts c) : countInstance c = some (1, 0, 0) := by
  unfold countInstance
  exact if_pos h

/-- what an ended instance adds -/
theorem countInstance_exited (h : Exited c) :
    countInstance c = (c.state.getD .default).finishedAt.bind fun _ =>
      let failedBy := match (c.state.getD .default).error with
        | some error => if error = "" then 0 else 1
        | none => 0
      match (c.state.getD .default).exitCode with
      | some exitCode => if exitCode = 0 then some (failedBy, 1, 0) else some (1 + failedBy, 0, 0)
      | none => some (failedBy, 0, 0) := by
  obtain ⟨hr, hn, hs⟩ := h
  unfold countInstance
  refine (if_neg hr).trans ((if_neg hn).trans ?_)
  unfold NeverStarted at hs
  cases hf : (c.state.getD .default).finishedAt with
  | none => rfl
  | some t =>
    have ht : t ≠ "0001-01-01T00:00:00Z" := fun he => hs (by rw [hf, he])
    cases (c.state.getD .default).exitCode <;> cases (c.state.getD .default).error <;>
      simp only [ht, if_false, Option.bind_some]

theorem countInstance_running : countInstance c = some (0, 0, 1) ↔ CountsRunning c := by
  constructor
  · intro h
    have hr : ¬ Restarts c := fun hr => by rw [countInstance_restarts c hr] at h; cases h
    refine ⟨hr, ?_⟩
    by_contra hno
    rw [not_or] at hno
    rw [countInstance_exited c ⟨hr, hno⟩, Option.bind_eq_some_iff] at h
    obtain ⟨t, -, h⟩ := h
    cases hcode : (c.state.getD .default).exitCode with
    | none => simp [hcode] at h
    | some code => by_cases hc : code = 0 <;> simp [hcode, hc] at h
  · rintro ⟨hr, hn | hs⟩
    · unfold countInstance
      exact (if_neg hr).trans (if_pos hn)
    · unfold countInstance
      unfold NeverStarted at hs
      refine (if_neg hr).trans ?_
      simp only [hs, if_true, ite_self]

/-- the error of an ended instance is one more failure -/
theorem failedBy_eq (e : Option String) [Decidable (∃ t, e = some t ∧ t ≠ "")] :
    (match e with | some error => if error = "" then 0 else 1 | none => 0) =
      if ∃ t, e = some t ∧ t ≠ "" then 1 else 0 := by
  cases e with
  | none => simp
  | some t => by_cases ht : t = "" <;> simp [ht]

/-- exactly one class: the instance restarts, runs or never started, or it has ended with one verdict -/
theorem oneClass_iff : OneClass c ↔ Classifiable c := by
  classical
  by_cases hx : Exited c
  · unfold OneClass Classifiable HasError
    simp only [countInstance_exited c hx, hx, true_imp_iff, failedBy_eq]
    cases (c.state.getD .default).finishedAt with
    | none => simp
    | some t =>
      by_cases he : ∃ t, (c.state.getD .default).error = some t ∧ t ≠ ""
      · cases (c.state.getD .default).exitCode with
        | none => simp [he]
        | some code => by_cases hc : code = 0 <;> simp [he, hc]
      · cases (c.state.getD .default).exitCode with
        | none => simp [he]
        | some code => by_cases hc : code = 0 <;> simp [he, hc]
  · refine iff_of_true ?_ fun h => absurd h hx
    by_cases hr : Restarts c
    · exact Or.inl (countInstance_restarts c hr)
    · refine Or.inr (Or.inr ((countInstance_running c).2 ⟨hr, ?_⟩))
      by_contra hno
      rw [not_or] at hno
      exact hx ⟨hr, hno⟩

end

/-! ## A list of instances -/

/-- one step of `count_status` -/
def countStep (n : ℕ × ℕ × ℕ) (i : ProcessDb) : Option (ℕ × ℕ × ℕ) := do
  let (f, s, r) ← countInstance i.data
  return (n.1 + f, n.2.1 + s, n.2.2 + r)

theorem countStatus_eq (instances : List ProcessDb) :
    countStatus instances = (instances.foldlM countStep (0, 0, 0)).map fun n =>
      (instances.length, n.1, n.2.1, n.2.2) := by
  change (instances.foldlM countStep (0, 0, 0) >>= _) = _
  cases instances.foldlM countStep (0, 0, 0) <;> rfl

/-- instances with one class each add up, and nothing is added to the running ones exactly if none of them is one -/
theorem foldlM_oneClass {instances : List ProcessDb} (h : ∀ i ∈ instances, OneClass i.data) (n : ℕ × ℕ × ℕ) :
    ∃ f s r, instances.foldlM countStep n = some (n.1 + f, n.2.1 + s, n.2.2 + r) ∧ f + s + r = instances.length ∧
      (r = 0 ↔ ∀ i ∈ instances, ¬ CountsRunning i.data) := by
  induction instances generalizing n with
  | nil => exact ⟨0, 0, 0, rfl, rfl, by simp⟩
  | cons i instances ih =>
    have hi := h i (List.mem_cons_self ..)
    obtain ⟨f, s, r, hone, hsum, hrun⟩ : ∃ f s r, countInstance i.data = some (f, s, r) ∧ f + s + r = 1 ∧
        (r = 0 ↔ ¬ CountsRunning i.data) := by
      rw [← countInstance_running]
      rcases hi with hi | hi | hi
      · exact ⟨1, 0, 0, hi, rfl, by simp [hi]⟩
      · exact ⟨0, 1, 0, hi, rfl, by simp [hi]⟩
      · exact ⟨0, 0, 1, hi, rfl, by simp [hi]⟩
    obtain ⟨f', s', r', hfold, hsum', hrun'⟩ := ih (fun j hj => h j (List.mem_cons_of_mem _ hj))
      (n.1 + f, n.2.1 + s, n.2.2 + r)
    refine ⟨f + f', s + s', r + r', ?_, ?_, ?_⟩
    · rw [List.foldlM_cons]
      simp only [countStep, hone, Option.bind_eq_bind, Option.bind_some, Option.pure_def]
      simpa only [Nat.add_assoc] using hfold
    · rw [List.length_cons]
      omega
    · rw [List.forall_mem_cons, ← hrun, ← hrun']
      omega

/-- a list with an instance that panics panics -/
theorem oneClass_of_counts {instances : List ProcessDb} (h : ∀ i ∈ instances, OneClass i.data) :
    ∃ failed success running, countStatus instances = some (instances.length, failed, success, running) ∧
      failed + success + running = instances.length ∧
      (running = 0 ↔ ∀ i ∈ instances, ¬ CountsRunning i.data) := by
  obtain ⟨f, s, r, hfold, hsum, hrun⟩ := foldlM_oneClass h (0, 0, 0)
  refine ⟨f, s, r, ?_, hsum, hrun⟩
  rw [countStatus_eq, hfold]
  simp

/-- what the counters promise about a list -/
structure CountsOnce (instances : List ProcessDb) : Prop where
  /-- each process is put into exactly one class -/
  classes : ∀ i ∈ instances, OneClass i.data
  /-- and one that was created but never started, so that it does not restart either, into the running ones -/
  created : ∀ i ∈ instances, ¬ Restarts i.data → NeverStarted i.data → countInstance i.data = some (0, 0, 1)
  /-- the counters add up to the total, and none runs exactly if every process has exited -/
  counted : ∃ total failed success running, countStatus instances = some (total, failed, success, running) ∧
    failed + success + running = total ∧ (running = 0 ↔ ∀ i ∈ instances, Exited i.data)

/-- **Each process once.** For every list of processes each of them is counted once, the counters add up and none runs
exactly if all have exited, if and only if each process that has exited has a finish time and either an exit code or an
error, and a process that restarts is together with one that counts as running. -/
theorem counts_once_iff (instances : List ProcessDb) :
    CountsOnce instances ↔ (∀ i ∈ instances, Classifiable i.data) ∧
      ((∃ i ∈ instances, Restarts i.data) → ∃ i ∈ instances, CountsRunning i.data) := by
  have hclass : (∀ i ∈ instances, OneClass i.data) ↔ ∀ i ∈ instances, Classifiable i.data :=
    forall₂_congr fun i _ => oneClass_iff i.data
  constructor
  · rintro ⟨hone, -, total, failed, success, running, hcount, -, hrun⟩
    refine ⟨hclass.1 hone, ?_⟩
    rintro ⟨i, hi, hr⟩
    obtain ⟨failed', success', running', hcount', -, hrun'⟩ := oneClass_of_counts hone
    rw [hcount] at hcount'
    cases hcount'
    by_contra hno
    push Not at hno
    exact (hrun.1 (hrun'.2 hno) i hi).1 hr
  · rintro ⟨hcl, hrestart⟩
    obtain ⟨failed, success, running, hcount, hsum, hrun⟩ := oneClass_of_counts (hclass.2 hcl)
    refine ⟨hclass.2 hcl, fun i _ hr hs => (countInstance_running _).2 ⟨hr, Or.inr hs⟩,
      _, failed, success, running, hcount, hsum, hrun.trans ?_⟩
    constructor
    · intro hnone i hi
      have hnr : ¬ Restarts i.data := fun hr => by
        obtain ⟨j, hj, hjr⟩ := hrestart ⟨i, hi, hr⟩
        exact hnone j hj hjr
      refine ⟨hnr, fun hn => hnone i hi ⟨hnr, Or.inl hn⟩, fun hs => hnone i hi ⟨hnr, Or.inr hs⟩⟩
    · intro hall i hi hrunning
      obtain ⟨-, hn, hs⟩ := hall i hi
      exact hrunning.2.elim hn hs

/-! An instance that has ended with exit code 127 and an error, and one that restarts. -/

def startFailed : ProcessDb :=
  ⟨1, "web", .cargo, "web.global", "node", 0,
    ⟨some 1, some ⟨some false, some false, some "2024-06-01T12:00:00Z", some 127, some "exec: not found"⟩, []⟩, rfl⟩

def restartingWeb : ProcessDb :=
  ⟨2, "web", .cargo, "web.global", "node", 0,
    ⟨some 2, some ⟨some true, some true, some "2024-06-01T12:00:00Z", some 1, some ""⟩, []⟩, rfl⟩

/-- the first is two failures of one instance; with the second alone nothing runs, though it has not exited -/
theorem failed_twice :
    countStatus [startFailed] = some (1, 2, 0, 0) ∧ ¬ CountsOnce [startFailed] ∧
    countStatus [restartingWeb] = some (1, 1, 0, 0) ∧ ¬ CountsOnce [restartingWeb] := by
  have htwice : countStatus [startFailed] = some (1, 2, 0, 0) := by decide +kernel
  have hrestart : countStatus [restartingWeb] = some (1, 1, 0, 0) := by decide +kernel
  refine ⟨htwice, fun h => ?_, hrestart, fun h => ?_⟩
  · obtain ⟨total, failed, success, running, hcount, hsum, -⟩ := h.counted
    rw [htwice] at hcount
    cases hcount
    exact absurd hsum (by decide)
  · obtain ⟨total, failed, success, running, hcount, -, hrun⟩ := h.counted
    rw [hrestart] at hcount
    cases hcount
    exact (hrun.1 rfl restartingWeb (List.mem_cons_self ..)).1 rfl

end Nanocl.Status
