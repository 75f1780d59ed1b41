/-
Tasks that run concurrently on a shared state, one step at a time and in any order.

What a task does after a step may depend on the state that the step found. A pool has a task for each index, and a schedule
says whose step is next.

- `Stable.run`: an assertion about each task holds after every schedule, if the steps of the task keep it and the steps of the
  others do not disturb it, from all the states on the way.
- `Stable.run_pool`, `Stable.run_state`: so does an assertion about the pool, or about the state, that no step breaks where the
  assertions about the tasks hold.
- `Pool.run_alone`: a task that is scheduled until it is done does what it does alone.
-/
import Mathlib.Logic.Function.Basic

namespace Nanocl.Lib

/-- a task: it is done, or it does a step on the state and goes on -/
inductive Task (σ ρ : Type) where
  | done (result : ρ)
  | step (act : σ → σ) (next : σ → Task σ ρ)

namespace Task

variable {σ ρ : Type}

/-- do these steps, and go on with the task -/
def doAll : List (σ → σ) → Task σ ρ → Task σ ρ
  | [], t => t
  | act :: acts, t => .step act fun _ => doAll acts t

/-- what a task makes of a state, if nothing else runs -/
def alone : Task σ ρ → σ → ρ × σ
  | .done result, s => (result, s)
  | .step act next, s => alone (next s) (act s)

theorem alone_doAll (acts : List (σ → σ)) (t : Task σ ρ) (s : σ) :
    alone (doAll acts t) s = alone t (acts.foldl (fun s act => act s) s) := by
  induction acts generalizing s with
  | nil => rfl
  | cons act acts ih => exact ih (act s)

end Task

variable {ι σ ρ : Type}

/-- a task for each index, and the state they share -/
structure Pool (ι σ ρ : Type) where
  tasks : ι → Task σ ρ
  state : σ

/-! ## Schedules -/

section Pool

variable [DecidableEq ι]

namespace Pool

/-- one step of a task, if it is not done -/
def step (p : Pool ι σ ρ) (i : ι) : Pool ι σ ρ :=
  match p.tasks i with
  | .done _ => p
  | .step act next => ⟨Function.update p.tasks i (next p.state), act p.state⟩

def run (p : Pool ι σ ρ) (schedule : List ι) : Pool ι σ ρ := schedule.foldl step p

@[simp] theorem run_nil (p : Pool ι σ ρ) : p.run [] = p := rfl

@[simp] theorem run_cons (p : Pool ι σ ρ) (i : ι) (schedule : List ι) :
    p.run (i :: schedule) = (p.step i).run schedule := rfl

theorem run_append (p : Pool ι σ ρ) (l m : List ι) : p.run (l ++ m) = (p.run l).run m := List.foldl_append

omit [DecidableEq ι] in
/-- every task is done -/
def Finished (p : Pool ι σ ρ) : Prop := ∀ i, ∃ result, p.tasks i = .done result

theorem step_of_done {p : Pool ι σ ρ} {i : ι} {result : ρ} (h : p.tasks i = .done result) : p.step i = p := by
  unfold step
  rw [h]

theorem step_of_step {p : Pool ι σ ρ} {i : ι} {act : σ → σ} {next : σ → Task σ ρ} (h : p.tasks i = .step act next) :
    p.step i = ⟨Function.update p.tasks i (next p.state), act p.state⟩ := by
  unfold step
  rw [h]

/-- a task that is scheduled until it is done has run alone -/
theorem run_alone (p : Pool ι σ ρ) (i : ι) : ∃ n, p.run (List.replicate n i) =
    ⟨Function.update p.tasks i (.done ((p.tasks i).alone p.state).1), ((p.tasks i).alone p.state).2⟩ := by
  generalize ht : p.tasks i = t
  induction t generalizing p with
  | done result => exact ⟨0, by simp [Task.alone, ← ht]⟩
  | step act next ih =>
    obtain ⟨n, hn⟩ := ih p.state (p.step i) (by simp [step_of_step ht])
    refine ⟨n + 1, ?_⟩
    rw [List.replicate_succ, run_cons, hn, step_of_step ht]
    simp [Task.alone]

end Pool

/-! ## Assertions -/

/-- an assertion about each task, which its own steps keep and the steps of the others do not disturb, from states of a
class -/
structure Stable (G : σ → Prop) (I : ι → Task σ ρ → σ → Prop) : Prop where
  own : ∀ i act next s, G s → I i (.step act next) s → I i (next s) (act s)
  other : ∀ i j act next t s, i ≠ j → G s → I i (.step act next) s → I j t s → I j t (act s)

namespace Stable

variable {G : σ → Prop} {I : ι → Task σ ρ → σ → Prop}

theorem step (h : Stable G I) {p : Pool ι σ ρ} (hG : G p.state) (hp : ∀ i, I i (p.tasks i) p.state) (i j : ι) :
    I j ((p.step i).tasks j) (p.step i).state := by
  cases hi : p.tasks i with
  | done result =>
    rw [Pool.step_of_done hi]
    exact hp j
  | step act next =>
    have hself : I i (.step act next) p.state := hi ▸ hp i
    rw [Pool.step_of_step hi]
    by_cases hij : j = i
    · subst hij
      simpa using h.own j act next p.state hG hself
    · simpa [Function.update_of_ne hij] using h.other i j act next _ p.state (Ne.symm hij) hG hself (hp j)

/-- **The assertions hold after every schedule.** -/
theorem run (h : Stable G I) {p : Pool ι σ ρ} {schedule : List ι} (hG : ∀ pre, pre <+: schedule → G (p.run pre).state)
    (hp : ∀ i, I i (p.tasks i) p.state) (i : ι) : I i ((p.run schedule).tasks i) (p.run schedule).state := by
  induction schedule generalizing p with
  | nil => exact hp i
  | cons j schedule ih =>
    refine ih (fun pre hpre => ?_) fun k => h.step (hG [] List.nil_prefix) hp j k
    simpa using hG (j :: pre) (List.cons_prefix_cons.2 ⟨rfl, hpre⟩)

/-- an assertion about the pool that the steps keep where the others hold -/
theorem run_pool (h : Stable G I) {K : Pool ι σ ρ → Prop}
    (hK : ∀ (p : Pool ι σ ρ) i, G p.state → (∀ j, I j (p.tasks j) p.state) → K p → K (p.step i)) {p : Pool ι σ ρ}
    {schedule : List ι} (hG : ∀ pre, pre <+: schedule → G (p.run pre).state) (hp : ∀ i, I i (p.tasks i) p.state) (hp' : K p) :
    K (p.run schedule) := by
  induction schedule generalizing p with
  | nil => exact hp'
  | cons i schedule ih =>
    have hstate : G p.state := hG [] List.nil_prefix
    refine ih (fun pre hpre => ?_) (fun j => h.step hstate hp i j) (hK p i hstate hp hp')
    simpa using hG (i :: pre) (List.cons_prefix_cons.2 ⟨rfl, hpre⟩)

/-- an assertion about the state that the steps keep where the others hold -/
theorem run_state (h : Stable G I) {J : σ → Prop} (hJ : ∀ i act next s, G s → I i (.step act next) s → J s → J (act s))
    {p : Pool ι σ ρ} {schedule : List ι} (hG : ∀ pre, pre <+: schedule → G (p.run pre).state)
    (hp : ∀ i, I i (p.tasks i) p.state) (hs : J p.state) : J (p.run schedule).state := by
  refine h.run_pool (K := fun p => J p.state) (fun p i hstate hp hs => ?_) hG hp hs
  cases hi : p.tasks i with
  | done result => rwa [Pool.step_of_done hi]
  | step act next =>
    rw [Pool.step_of_step hi]
    exact hJ i act next p.state hstate (hi ▸ hp i) hs

end Stable

end Pool

end Nanocl.Lib
