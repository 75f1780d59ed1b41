/-
Runs of a total labelled step function, and the two induction rules every result about runs uses.

A machine is `step : σ → ο → σ`; an operation that is refused leaves the state unchanged. `run` folds it over a list of
operations. `Along step P s ops` says that every step of the run satisfies `P` in the state it is taken in.
- `inv_run`: an invariant kept by every step that meets a condition holds at the end of a run that meets it throughout.
- `along_of_inv`: then everything the invariant and the condition give for one step holds of every step of the run.
- `along_inv_iff`: where the condition is exact for one step, it is exact for runs.
-/
import Mathlib.Data.List.Basic

namespace Nanocl.Lib

variable {σ ο : Type*}

/-- run a whole list of operations -/
def run (step : σ → ο → σ) (s : σ) (ops : List ο) : σ := ops.foldl step s

@[simp] theorem run_nil (step : σ → ο → σ) (s : σ) : run step s [] = s := rfl

@[simp] theorem run_cons (step : σ → ο → σ) (s : σ) (o : ο) (ops : List ο) :
    run step s (o :: ops) = run step (step s o) ops := rfl

theorem run_append (step : σ → ο → σ) (s : σ) (a b : List ο) :
    run step s (a ++ b) = run step (run step s a) b := by
  simp [run, List.foldl_append]

/-- every step of the run satisfies `P` in the state it is taken in -/
def Along (step : σ → ο → σ) (P : σ → ο → Prop) : σ → List ο → Prop
  | _, [] => True
  | s, o :: ops => P s o ∧ Along step P (step s o) ops

instance Along.decidable (step : σ → ο → σ) (P : σ → ο → Prop) [∀ s o, Decidable (P s o)] (s : σ) (ops : List ο) :
    Decidable (Along step P s ops) :=
  match ops with
  | [] => .isTrue trivial
  | o :: ops => @instDecidableAnd _ _ _ (Along.decidable step P (step s o) ops)

theorem along_append (step : σ → ο → σ) (P : σ → ο → Prop) (s : σ) (a b : List ο) :
    Along step P s (a ++ b) ↔ Along step P s a ∧ Along step P (run step s a) b := by
  induction a generalizing s with
  | nil => simp [Along]
  | cons o a ih => simp [Along, ih, and_assoc]

/-- the prefix form: `P` holds at every position of the run -/
theorem along_iff (step : σ → ο → σ) (P : σ → ο → Prop) (s : σ) (ops : List ο) :
    Along step P s ops ↔ ∀ pre o post, ops = pre ++ o :: post → P (run step s pre) o := by
  induction ops generalizing s with
  | nil => simp [Along]
  | cons o ops ih =>
    simp only [Along, ih]
    constructor
    · rintro ⟨h0, h⟩ pre o' post heq
      cases pre with
      | nil => obtain ⟨rfl, rfl⟩ := List.cons.inj heq; exact h0
      | cons p pre => obtain ⟨rfl, rfl⟩ := List.cons.inj heq; exact h pre o' post rfl
    · intro h
      exact ⟨h [] o ops rfl, fun pre o' post heq => h (o :: pre) o' post (by rw [heq]; rfl)⟩

/-- a condition that the operations meet in every state -/
theorem along_of_forall {step : σ → ο → σ} {P : σ → ο → Prop} {s : σ} {ops : List ο} (h : ∀ o ∈ ops, ∀ s, P s o) :
    Along step P s ops := by
  induction ops generalizing s with
  | nil => trivial
  | cons o ops ih => exact ⟨h o (List.mem_cons_self ..) s, ih fun o' ho' => h o' (List.mem_cons_of_mem _ ho')⟩

theorem along_true (step : σ → ο → σ) (s : σ) (ops : List ο) : Along step (fun _ _ => True) s ops := by
  induction ops generalizing s with
  | nil => trivial
  | cons o ops ih => exact ⟨trivial, ih (step s o)⟩

/-- **Invariant rule.** An invariant kept by every step that meets `C` survives a run that meets `C` throughout. -/
theorem inv_run {step : σ → ο → σ} {C : σ → ο → Prop} {I : σ → Prop}
    (hstep : ∀ s o, I s → C s o → I (step s o)) {s : σ} {ops : List ο} (hs : I s) (hC : Along step C s ops) :
    I (run step s ops) := by
  induction ops generalizing s with
  | nil => exact hs
  | cons o ops ih => exact ih (hstep s o hs hC.1) hC.2

/-- **Step rule.** What the invariant and the condition give for one step holds of every step of the run. -/
theorem along_of_inv {step : σ → ο → σ} {C P : σ → ο → Prop} {I : σ → Prop}
    (hstep : ∀ s o, I s → C s o → I (step s o)) (hP : ∀ s o, I s → C s o → P s o) {s : σ} {ops : List ο}
    (hs : I s) (hC : Along step C s ops) : Along step P s ops := by
  induction ops generalizing s with
  | nil => trivial
  | cons o ops ih => exact ⟨hP s o hs hC.1, ih (hstep s o hs hC.1) hC.2⟩

/-- two properties of a step that the invariant makes equivalent hold along the same runs -/
theorem along_congr_of_inv {step : σ → ο → σ} {P Q : σ → ο → Prop} {I : σ → Prop}
    (hstep : ∀ s o, I s → I (step s o)) (hPQ : ∀ s o, I s → (P s o ↔ Q s o)) {s : σ} (hs : I s) (ops : List ο) :
    Along step P s ops ↔ Along step Q s ops := by
  induction ops generalizing s with
  | nil => exact Iff.rfl
  | cons o ops ih => exact and_congr (hPQ s o hs) (ih (hstep s o hs))

/-- **Exact condition.** Where a step from a good state ends in a good state if it meets `C`, and does not even keep the
weaker `I` if it does not, the runs that keep `I` throughout are those that meet `C` throughout. -/
theorem along_inv_iff {step : σ → ο → σ} {C : σ → ο → Prop} {I J : σ → Prop} (hJI : ∀ s, J s → I s)
    (hstep : ∀ s o, J s → C s o → J (step s o)) (hback : ∀ s o, J s → I (step s o) → C s o) {s : σ} (hs : J s)
    (ops : List ο) : Along step (fun s o => I (step s o)) s ops ↔ Along step C s ops := by
  induction ops generalizing s with
  | nil => exact Iff.rfl
  | cons o ops ih =>
    constructor
    · rintro ⟨h, hrest⟩
      have hC := hback s o hs h
      exact ⟨hC, (ih (hstep s o hs hC)).1 hrest⟩
    · rintro ⟨hC, hrest⟩
      have hJ := hstep s o hs hC
      exact ⟨hJI _ hJ, (ih hJ).2 hrest⟩

end Nanocl.Lib
