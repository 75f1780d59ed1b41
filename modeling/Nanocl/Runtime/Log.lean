/-
Which calls a task issues. `Logs E S` relates two worlds if the calls made in between are in the set `S` and those that
succeeded were let through by the environment.

- `framed_logs`: the tasks whose calls are in `S` keep it.

- `Issued.mono`, `Issued.of_logs`: a call issued somewhere in a task is issued by the task, and belongs to its set.
-/
import Nanocl.Runtime.Frame

namespace Nanocl.Runtime

open Nanocl.Lib

variable (E : Env) (S : Call → Prop)

/-- the calls logged in between are in `S`, and the successful ones were let through -/
def Docker.Logged (d d' : Docker) : Prop :=
  ∃ l, d'.log = d.log ++ l ∧ ∀ e ∈ l, S e.call ∧ (e.ok = true → E.fate e.call = none)

def Logs (w w' : World) : Prop := Docker.Logged E S w.docker w'.docker

instance : IsPreorder World (Logs E S) where
  refl w := ⟨[], by simp⟩
  trans := by
    rintro a b c ⟨l, hl, h⟩ ⟨l', hl', h'⟩
    refine ⟨l ++ l', by rw [hl', hl, List.append_assoc], fun e he => ?_⟩
    rcases List.mem_append.1 he with he | he
    · exact h e he
    · exact h' e he

/-- the call was made between the two worlds -/
def Issued (w w' : World) (c : Call) : Prop := ∃ l, w'.docker.log = w.docker.log ++ l ∧ ∃ e ∈ l, e.call = c

/-- the call was made on the container and succeeded -/
def Done (w w' : World) (c : Call) (id : ContainerId) : Prop :=
  ∃ l, w'.docker.log = w.docker.log ++ l ∧ ⟨c, some id, true⟩ ∈ l

variable {E S}

theorem Issued.mono {w w₁ w₂ w' : World} {c : Call} (h₁ : Logs E S w w₁) (h : Issued w₁ w₂ c) (h₂ : Logs E S w₂ w') :
    Issued w w' c := by
  obtain ⟨l₁, hl₁, -⟩ := h₁
  obtain ⟨l, hl, e, he, hc⟩ := h
  obtain ⟨l₂, hl₂, -⟩ := h₂
  exact ⟨l₁ ++ l ++ l₂, by simp [hl₂, hl, hl₁], e, by simp [he], hc⟩

theorem Done.mono {w w₁ w₂ w' : World} {c : Call} {id : ContainerId} (h₁ : Logs E S w w₁) (h : Done w₁ w₂ c id)
    (h₂ : Logs E S w₂ w') : Done w w' c id := by
  obtain ⟨l₁, hl₁, -⟩ := h₁
  obtain ⟨l, hl, he⟩ := h
  obtain ⟨l₂, hl₂, -⟩ := h₂
  exact ⟨l₁ ++ l ++ l₂, by simp [hl₂, hl, hl₁], by simp [he]⟩

/-- a call a task issues is one of its calls -/
theorem Issued.of_logs {w w' : World} {c : Call} (h : Issued w w' c) (hS : Logs E S w w') : S c := by
  obtain ⟨l, hl, e, he, rfl⟩ := h
  obtain ⟨l', hl', hS⟩ := hS
  rw [hl, List.append_cancel_left_eq] at hl'
  exact (hS e (hl' ▸ he)).1

/-- a call that succeeded was let through -/
theorem Done.of_logs {w w' : World} {c : Call} {id : ContainerId} (h : Done w w' c id) (hS : Logs E S w w') :
    S c ∧ E.fate c = none := by
  obtain ⟨l, hl, he⟩ := h
  obtain ⟨l', hl', hS⟩ := hS
  rw [hl, List.append_cancel_left_eq] at hl'
  obtain ⟨h1, h2⟩ := hS _ (hl' ▸ he)
  exact ⟨h1, h2 rfl⟩

theorem Logs.weaken {S' : Call → Prop} (hS : ∀ c, S c → S' c) {w w' : World} (h : Logs E S w w') : Logs E S' w w' := by
  obtain ⟨l, hl, h⟩ := h
  exact ⟨l, hl, fun e he => ⟨hS _ (h e he).1, (h e he).2⟩⟩

/-- what the first part of a sequence issued stays issued -/
theorem Issued.bind {α β : Type} {m : Io α} {f : α → Io β} {c : Call} {w : World} (h : Issued w (m w).2 c)
    (hf : ∀ a, Prog.Keeps (Logs E fun _ => True) (f a)) : Issued w ((m >>= f) w).2 c := by
  rcases hm : m w with ⟨e | a, w'⟩
  · rw [Prog.bind_of_error hm]
    rwa [hm] at h
  · rw [Prog.bind_of_ok hm]
    rw [hm] at h
    exact Issued.mono (Std.Refl.refl (r := Logs E fun _ => True) w) h (hf a w')

/-! ## Steps -/

theorem logs_record {d d' : Docker} (hd : d'.log = d.log) {c : Call} {id : Option ContainerId} {ok : Bool} (hc : S c)
    (hok : ok = true → E.fate c = none) : Docker.Logged E S d (d'.record c id ok) :=
  ⟨[⟨c, id, ok⟩], by simp [Docker.record, hd], fun e he => by
    obtain rfl := List.mem_singleton.1 he
    exact ⟨hc, hok⟩⟩

theorem logs_call {c : Call} (hc : S c) (ref : Ref) (d : Docker) : Docker.Logged E S d (d.call E c ref).2 := by
  unfold Docker.call
  split
  · exact logs_record rfl hc (by simp)
  · exact logs_record rfl hc (by simp)
  · rename_i hf _
    split
    · exact logs_record rfl hc (by simp)
    · exact logs_record rfl hc fun _ => hf

theorem logs_callInert {c : Call} (hc : S c) (d : Docker) : Docker.Logged E S d (d.callInert E c).2 := by
  unfold Docker.callInert
  cases hf : E.fate c with
  | some e => exact logs_record rfl hc (by simp)
  | none => exact logs_record rfl hc fun _ => hf

theorem log_removalStep (w : World) (s : RemovalStep) : (w.removalStep s).docker.log = w.docker.log := by
  cases s <;> simp only [World.removalStep] <;> split_ifs <;> rfl

theorem logs_of_docker {w w' : World} (h : w'.docker = w.docker) : Logs E S w w' := ⟨[], by simp [h], by simp⟩

theorem logs_suspend : Prog.Keeps (Logs E S) (suspend E) :=
  keeps_suspend (fun w s => ⟨[], by simp [log_removalStep], by simp⟩) fun _ => logs_of_docker rfl

theorem logs_createProcess (hS : ∀ c : Call, c.creating → S c) (kind : ProcessKind) (draw : ℕ)
    (name kindKey : String) (item : Config) :
    Prog.Keeps (Logs E S) (createProcess E kind draw name kindKey item) := by
  have hcreate : ∀ config, Prog.Keeps (Logs E S) (createContainer E draw name config) := fun config =>
    Prog.keeps_bind logs_suspend fun _ w => by
      have hc := hS (.createContainer draw name) trivial
      change Docker.Logged E S w.docker (w.docker.createContainer E draw name config).2
      unfold Docker.createContainer
      cases hf : E.fate (.createContainer draw name) with
      | some e => exact logs_record rfl hc (by simp)
      | none => exact logs_record rfl hc fun _ => hf
  have hinspect : ∀ id, Prog.Keeps (Logs E S) (inspectContainer E id) := fun id =>
    Prog.keeps_bind logs_suspend fun _ w => by
      have hc := hS (.inspectContainer id) trivial
      change Docker.Logged E S w.docker (w.docker.inspectContainer E id).2
      unfold Docker.inspectContainer
      split
      · exact logs_record rfl hc (by simp)
      · exact logs_record rfl hc (by simp)
      · rename_i hf _
        exact logs_record rfl hc fun _ => hf
  exact Prog.keeps_bind (Steps.orThrow (hcreate _)) fun _ => Prog.keeps_bind (Steps.orThrow (hinspect _)) fun _ =>
    Prog.keeps_bind (Prog.keeps_bind logs_suspend fun _ _ => ⟨[], by simp, by simp⟩) fun _ => Prog.keeps_pure _

theorem framed_logs : Framed E S (Logs E S) where
  suspend := logs_suspend
  call _ hc ref w := logs_call hc ref w.docker
  inert _ hc w := logs_callInert hc w.docker
  draw _ := logs_of_docker rfl
  create := logs_createProcess
  status _ _ _ := logs_of_docker rfl
  emit _ _ := logs_of_docker rfl
  erase _ _ := logs_of_docker rfl
  defer _ _ := logs_of_docker rfl

end Nanocl.Runtime
