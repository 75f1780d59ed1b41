/-
The crontab of the jobs (`utils/cron.rs`): calls of `add_cron_rule` and `remove_cron_rule` that run at the same time.

A call copies or reads root's crontab, writes `/tmp/crontab`, which all calls share, and hands it to `crontab`. Nothing is
locked, what `crontab` says of the file is not looked at, and a rule is removed with every line its command occurs in. A step is
one operation on the files; a step that fails ends its call, and has done nothing.

- `change`: what a call makes of the crontab, if nothing comes between its steps.
- `serial_of_run`: where no call writes a file that another one is using, the crontab is what the calls make of it one after
  the other.
- `rawLines_change`: a call that fits the crontab changes its own line and no other.
- `crontab_keeps_lines`: so nothing is lost.

Counterexample: `rule_lost`.
-/
import Nanocl.Lib.Lines
import Nanocl.Lib.Transition
import Nanocl.Runtime.Image
import Mathlib.Data.List.Infix
import Mathlib.Data.List.Nodup

namespace Nanocl.Crontab

open Nanocl.Lib

/-! ## Rules -/

/-- what is read of a job -/
structure Job where
  name : String
  schedule : String
deriving DecidableEq

/-- the daemon, the operations that fail and what `crontab` takes over -/
structure Env (κ : Type) where
  hosts : List String
  version : String
  fault : κ → ℕ → Option String
  accepts : String → Bool

/-- `format_cron_job_command`, for the name of a job -/
def commandOf (hosts : List String) (version name : String) : String :=
  let host := hosts.head?.getD "unix:///run/nanocl/nanocl.sock"
  let host := String.ofList (Runtime.replaceFrom "unix://".toList [] 0 host.toList)
  "curl -X POST --unix " ++ host ++ " http://localhost/v" ++ version ++ "/processes/job/" ++ name ++ "/start"

variable {κ : Type} (E : Env κ)

def formatCronJobCommand (job : Job) : String := commandOf E.hosts E.version job.name

def cronRule (job : Job) : String := job.schedule ++ " " ++ formatCronJobCommand E job

/-- the command occurs in the line -/
def Mentions (line command : String) : Prop := command.toList <:+: line.toList

instance (line command : String) : Decidable (Mentions line command) :=
  inferInstanceAs (Decidable (command.toList <:+: line.toList))

/-- the content that is left without the lines of a command -/
def withoutCommand (content command : String) : String :=
  "\n".intercalate ((lines content).filter fun line => ¬ Mentions line command) ++ "\n"

/-! ## Steps -/

/-- where a call is: what it has done, or what it has read -/
inductive Proc where
  | add (job : Job)
  | copied (job : Job)
  | opened (job : Job)
  | appended (job : Job)
  | remove (job : Job)
  | read (job : Job) (content : String)
  | written (job : Job)
  | returned (result : Except String Unit)

/-- how many steps were made -/
def Proc.steps : Proc → ℕ
  | .add _ | .remove _ => 0
  | .copied _ | .read _ _ => 1
  | .opened _ | .written _ => 2
  | .appended _ => 3
  | .returned _ => 4

/-- the two files, the calls, and the calls whose file was taken over, in order -/
structure State (κ : Type) where
  root : String
  tmp : String
  procs : κ → Proc
  installed : List κ

variable [DecidableEq κ]

def State.goto (s : State κ) (i : κ) (p : Proc) : State κ := { s with procs := Function.update s.procs i p }

/-- `exec_crontab`: an error only where the program cannot be run, not where it refuses the file -/
def execCrontab (s : State κ) (i : κ) : State κ :=
  if E.accepts s.tmp then { s with root := s.tmp, installed := s.installed ++ [i] } else s

/-- one operation of a call -/
def act (s : State κ) (i : κ) : Proc → State κ
  | .add job => { s with tmp := s.root }.goto i (.copied job)
  | .copied job => s.goto i (.opened job)
  | .opened job => { s with tmp := s.tmp ++ (cronRule E job ++ "\n") }.goto i (.appended job)
  | .appended _ => (execCrontab E s i).goto i (.returned (.ok ()))
  | .remove job => s.goto i (.read job s.root)
  | .read job content => { s with tmp := withoutCommand content (formatCronJobCommand E job) }.goto i (.written job)
  | .written _ => (execCrontab E s i).goto i (.returned (.ok ()))
  | .returned _ => s

def step (s : State κ) (i : κ) : State κ :=
  match s.procs i with
  | .returned _ => s
  | p =>
    match E.fault i p.steps with
    | some e => s.goto i (.returned (.error ("Cron job: " ++ e)))
    | none => act E s i p

/-- `add_cron_rule` or `remove_cron_rule` -/
inductive Call where
  | add (job : Job)
  | remove (job : Job)
deriving DecidableEq

def Call.begin : Call → Proc
  | .add job => .add job
  | .remove job => .remove job

/-- the calls before their first steps; the temporary file has any content -/
def init (calls : κ → Call) (root tmp : String) : State κ := ⟨root, tmp, fun i => (calls i).begin, []⟩

/-! ## One call after the other -/

/-- what a call makes of the crontab, if nothing comes between its steps -/
def change (root : String) : Call → String
  | .add job => root ++ (cronRule E job ++ "\n")
  | .remove job => withoutCommand root (formatCronJobCommand E job)

variable (calls : κ → Call)

omit [DecidableEq κ] in
/-- a call fits the crontab that it finds: a rule that is added is one line, behind another line; a command that is removed
is mentioned by its own rule only, which is not the only line -/
def Fits (root : String) : Call → Prop
  | .add job => Terminated root ∧ '\n' ∉ (cronRule E job).toList
  | .remove job =>
    (∀ l ∈ rawLines root, l.toList.getLast? ≠ some '\r' ∧ (Mentions l (formatCronJobCommand E job) → l = cronRule E job)) ∧
      (∃ l ∈ rawLines root, l ≠ cronRule E job) ∧
      ∀ i other, calls i = .add other → other.name ≠ job.name →
        ¬ Mentions (cronRule E other) (formatCronJobCommand E job)

/-! ## Steps that do not disturb -/

/-- what the call has made is in the temporary file, and is to be taken over -/
def Proc.Holds : Proc → Prop
  | .copied _ | .opened _ | .appended _ | .written _ => True
  | .add _ | .remove _ | .read _ _ | .returned _ => False

/-- the call has read the crontab, and is to replace it -/
def Proc.Reads : Proc → Prop
  | .copied _ | .opened _ | .appended _ | .read _ _ | .written _ => True
  | .add _ | .remove _ | .returned _ => False

/-- the step does not write a file that another call is using, the call fits the crontab that it reads, and `crontab` takes
its file over -/
def StepOk (s : State κ) (i : κ) : Prop :=
  match s.procs i with
  | .add job => Fits E calls s.root (.add job) ∧ ∀ j, j ≠ i → ¬ (s.procs j).Holds
  | .remove job => Fits E calls s.root (.remove job)
  | .read _ _ => ∀ j, j ≠ i → ¬ (s.procs j).Holds
  | .appended _ | .written _ => E.accepts s.tmp ∧ ∀ j, j ≠ i → ¬ (s.procs j).Reads
  | .copied _ | .opened _ | .returned _ => True

/-- what is so while a call is at a place -/
def At (root tmp : String) (c : Call) : Proc → Prop
  | .add job => c = .add job
  | .copied job | .opened job => c = .add job ∧ Fits E calls root c ∧ tmp = root
  | .appended job => c = .add job ∧ Fits E calls root c ∧ tmp = change E root c
  | .remove job => c = .remove job
  | .read job content => c = .remove job ∧ Fits E calls root c ∧ content = root
  | .written job => c = .remove job ∧ Fits E calls root c ∧ tmp = change E root c
  | .returned _ => True

/-- the crontab is what the calls that are done have made of it, one after the other -/
structure Serial (root₀ : String) (s : State κ) : Prop where
  at_ : ∀ i, At E calls s.root s.tmp (calls i) (s.procs i)
  holder : ∀ i j, (s.procs i).Holds → (s.procs j).Holds → i = j
  mem : ∀ i, i ∈ s.installed ↔ s.procs i = .returned (.ok ())
  nodup : s.installed.Nodup
  root : s.root = run (fun r i => change E r (calls i)) root₀ s.installed
  fits : Along (fun r i => change E r (calls i)) (fun r i => Fits E calls r (calls i)) root₀ s.installed

variable {E calls}

omit [DecidableEq κ] in
theorem At.of_not_holds {root tmp : String} {c : Call} {p : Proc} (h : At E calls root tmp c p) (hp : ¬ p.Holds)
    (tmp' : String) : At E calls root tmp' c p := by
  cases p with
  | add | remove | read | returned => exact h
  | copied | opened | appended | written => exact absurd trivial hp

omit [DecidableEq κ] in
theorem At.of_not_reads {root tmp : String} {c : Call} {p : Proc} (h : At E calls root tmp c p) (hp : ¬ p.Reads)
    (root' tmp' : String) : At E calls root' tmp' c p := by
  cases p with
  | add | remove | returned => exact h
  | copied | opened | appended | read | written => exact absurd trivial hp

theorem procs_goto (s : State κ) (i j : κ) (p : Proc) : (s.goto i p).procs j = if j = i then p else s.procs j := by
  unfold State.goto
  by_cases h : j = i <;> simp [h]

/-- a step that leaves the crontab, and the temporary file where another call uses it -/
theorem Serial.goto {root₀ tmp : String} {s : State κ} {i : κ} {p : Proc} (h : Serial E calls root₀ s)
    (hbefore : s.procs i ≠ .returned (.ok ())) (hafter : p ≠ .returned (.ok ()))
    (hp : At E calls s.root tmp (calls i) p)
    (hothers : (∀ j, j ≠ i → ¬ (s.procs j).Holds) ∨ tmp = s.tmp ∧ (p.Holds → (s.procs i).Holds)) :
    Serial E calls root₀ ({ s with tmp := tmp }.goto i p) := by
  refine ⟨fun j => ?_, fun j k hj hk => ?_, fun j => ?_, h.nodup, h.root, h.fits⟩
  · rw [procs_goto]
    split_ifs with hji
    · exact hji ▸ hp
    · obtain hno | ⟨rfl, -⟩ := hothers
      · exact (h.at_ j).of_not_holds (hno j hji) tmp
      · exact h.at_ j
  · rw [procs_goto] at hj hk
    have hholds : ∀ l, l ≠ i → p.Holds → ¬ (s.procs l).Holds := by
      intro l hl hpl hsl
      obtain hno | ⟨-, hown⟩ := hothers
      · exact hno l hl hsl
      · exact hl (h.holder l i hsl (hown hpl))
    split_ifs at hj hk with hji hki hki
    · rw [hji, hki]
    · exact absurd hk (hholds k hki hj)
    · exact absurd hj (hholds j hji hk)
    · exact h.holder j k hj hk
  · rw [procs_goto]
    split_ifs with hji
    · subst hji
      exact iff_of_false (fun hmem => hbefore ((h.mem j).1 hmem)) hafter
    · exact h.mem j

/-- the step that takes over what a call has made -/
theorem Serial.install {root₀ : String} {s : State κ} {i : κ} (h : Serial E calls root₀ s)
    (hbefore : s.procs i ≠ .returned (.ok ())) (hfits : Fits E calls s.root (calls i))
    (htmp : s.tmp = change E s.root (calls i)) (haccepts : E.accepts s.tmp)
    (hothers : ∀ j, j ≠ i → ¬ (s.procs j).Reads) :
    Serial E calls root₀ ((execCrontab E s i).goto i (.returned (.ok ()))) := by
  have hexec : execCrontab E s i = { s with root := s.tmp, installed := s.installed ++ [i] } := if_pos haccepts
  have hholds : ∀ j, j ≠ i → ¬ (s.procs j).Holds := by
    intro j hj hholds
    apply hothers j hj
    cases hproc : s.procs j <;> rw [hproc] at hholds <;> first | exact trivial | exact hholds
  rw [hexec]
  refine ⟨fun j => ?_, fun j k hj hk => ?_, fun j => ?_, ?_, ?_, ?_⟩
  · rw [procs_goto]
    split_ifs with hji
    · trivial
    · exact (h.at_ j).of_not_reads (hothers j hji) _ _
  · rw [procs_goto] at hj
    by_cases hji : j = i
    · rw [if_pos hji] at hj
      cases hj
    · rw [if_neg hji] at hj
      exact absurd hj (hholds j hji)
  · rw [procs_goto]
    split_ifs with hji
    · simp [State.goto, hji]
    · simp [State.goto, hji, h.mem j]
  · exact List.nodup_append.2 ⟨h.nodup, List.nodup_singleton i,
      fun a ha b hb heq => hbefore ((h.mem i).1 (List.mem_singleton.1 hb ▸ heq ▸ ha))⟩
  · show s.tmp = run _ root₀ (s.installed ++ [i])
    rw [run_append, ← h.root]
    exact htmp
  · refine (along_append _ _ _ _ _).2 ⟨h.fits, ?_⟩
    rw [← h.root]
    exact ⟨hfits, trivial⟩

/-- a step of a call that has not returned fails, or does its operation -/
theorem step_cases (s : State κ) (i : κ) :
    (step E s i = s ∧ ∃ result, s.procs i = .returned result) ∨
    (∀ result, s.procs i ≠ .returned result) ∧
      ((∃ e, step E s i = s.goto i (.returned (.error ("Cron job: " ++ e)))) ∨ step E s i = act E s i (s.procs i)) := by
  unfold step
  split
  · next result hproc => exact .inl ⟨rfl, result, hproc⟩
  · next hproc =>
    refine .inr ⟨fun result h => hproc result h, ?_⟩
    split
    · next e _ => exact .inl ⟨e, rfl⟩
    · exact .inr rfl

/-- an operation that does not disturb keeps the calls serial -/
theorem Serial.act {root₀ : String} {s : State κ} (h : Serial E calls root₀ s) (i : κ) (hne : s.procs i ≠ .returned (.ok ()))
    (hok : StepOk E calls s i) : Serial E calls root₀ (act E s i (s.procs i)) := by
  have hat := h.at_ i
  unfold StepOk at hok
  cases hproc : s.procs i with
  | returned result => exact h
  | add job =>
    rw [hproc] at hat hok
    refine h.goto hne nofun ⟨hat, ?_, rfl⟩ (.inl hok.2)
    rw [show calls i = .add job from hat]
    exact hok.1
  | copied job =>
    rw [hproc] at hat
    exact h.goto hne nofun hat (.inr ⟨rfl, fun _ => hproc ▸ trivial⟩)
  | opened job =>
    rw [hproc] at hat
    obtain ⟨hcall, hfits, htmp⟩ := hat
    refine h.goto hne nofun ⟨hcall, hfits, ?_⟩ (.inl fun j hj hholds => hj ?_)
    · rw [htmp, hcall]
      rfl
    · exact h.holder j i hholds (hproc ▸ trivial)
  | appended job =>
    rw [hproc] at hat hok
    exact h.install hne hat.2.1 hat.2.2 hok.1 hok.2
  | remove job =>
    rw [hproc] at hat hok
    refine h.goto hne nofun ⟨hat, ?_, rfl⟩ (.inr ⟨rfl, False.elim⟩)
    rw [show calls i = .remove job from hat]
    exact hok
  | read job content =>
    rw [hproc] at hat hok
    obtain ⟨hcall, hfits, rfl⟩ := hat
    refine h.goto hne nofun ⟨hcall, hfits, ?_⟩ (.inl hok)
    rw [hcall]
    rfl
  | written job =>
    rw [hproc] at hat hok
    exact h.install hne hat.2.1 hat.2.2 hok.1 hok.2

theorem Serial.step {root₀ : String} {s : State κ} (i : κ) (h : Serial E calls root₀ s) (hok : StepOk E calls s i) :
    Serial E calls root₀ (step E s i) := by
  obtain ⟨hsame, -⟩ | ⟨hproc, ⟨e, hfail⟩ | hact⟩ := step_cases (E := E) s i
  · rw [hsame]
    exact h
  · rw [hfail]
    exact h.goto (hproc _) nofun trivial (.inr ⟨rfl, False.elim⟩)
  · rw [hact]
    exact h.act i (hproc _) hok

omit [DecidableEq κ] in
theorem begin_cases (c : Call) : (∃ job, c = .add job ∧ c.begin = .add job) ∨ ∃ job, c = .remove job ∧ c.begin = .remove job := by
  cases c with
  | add job => exact .inl ⟨job, rfl, rfl⟩
  | remove job => exact .inr ⟨job, rfl, rfl⟩

omit [DecidableEq κ] in
theorem serial_init (root tmp : String) : Serial E calls root (init calls root tmp) := by
  have hstart : ∀ i, ¬ ((init calls root tmp).procs i).Holds ∧ (init calls root tmp).procs i ≠ .returned (.ok ()) ∧
      At E calls root tmp (calls i) ((init calls root tmp).procs i) := by
    intro i
    show ¬ (calls i).begin.Holds ∧ (calls i).begin ≠ .returned (.ok ()) ∧ At E calls root tmp (calls i) (calls i).begin
    obtain ⟨job, hcall, hbegin⟩ | ⟨job, hcall, hbegin⟩ := begin_cases (calls i)
    · rw [hbegin]
      exact ⟨id, nofun, hcall⟩
    · rw [hbegin]
      exact ⟨id, nofun, hcall⟩
  exact ⟨fun i => (hstart i).2.2, fun i _ hi => absurd hi (hstart i).1,
    fun i => iff_of_false List.not_mem_nil (hstart i).2.1, List.nodup_nil, rfl, trivial⟩

/-- **Where no step disturbs, the crontab is what the calls make of it one after the other.** -/
theorem serial_of_run {root tmp : String} {schedule : List κ}
    (hok : Along (Crontab.step E) (StepOk E calls) (init calls root tmp) schedule) :
    Serial E calls root (run (Crontab.step E) (init calls root tmp) schedule) :=
  inv_run (fun _ i => Serial.step i) (serial_init root tmp) hok

/-! ## Lines -/

/-- what a call is to make of the lines -/
def Call.intended (E : Env κ) (ls : List String) : Call → List String
  | .add job => ls ++ [cronRule E job]
  | .remove job => ls.filter (· ≠ cronRule E job)

omit [DecidableEq κ] in
theorem mentions_cronRule (job : Job) : Mentions (cronRule E job) (formatCronJobCommand E job) := by
  refine ⟨(job.schedule ++ " ").toList, [], ?_⟩
  simp [cronRule]

/-- the lines that are left are each ended by a line feed -/
theorem intercalate_feed {ls : List String} (h : ls ≠ []) : "\n".intercalate ls ++ "\n" = unlines ls := by
  induction ls with
  | nil => exact absurd rfl h
  | cons l ls ih =>
    cases ls with
    | nil => simp [unlines]
    | cons m ls =>
      rw [String.intercalate_cons_cons, String.append_assoc, ih (List.cons_ne_nil _ _)]
      rfl

omit [DecidableEq κ] in
/-- the crontab after a call that fits it -/
theorem change_eq_unlines {root : String} {c : Call} (h : Fits E calls root c) :
    change E root c = unlines (c.intended E (rawLines root)) := by
  cases c with
  | add job =>
    obtain ⟨hterminated, -⟩ := h
    show root ++ _ = unlines (rawLines root ++ [cronRule E job])
    rw [unlines_append, unlines_rawLines hterminated, unlines, unlines, String.append_empty]
  | remove job =>
    obtain ⟨hlines, ⟨l, hl, hne⟩, -⟩ := h
    have hread : lines root = rawLines root := lines_eq_rawLines fun l hl => (hlines l hl).1
    have hkept : (lines root).filter (fun l => ¬ Mentions l (formatCronJobCommand E job)) =
        (rawLines root).filter (· ≠ cronRule E job) := by
      rw [hread]
      refine List.filter_congr fun l hl => decide_eq_decide.2 (not_congr ⟨(hlines l hl).2, ?_⟩)
      rintro rfl
      exact mentions_cronRule job
    show withoutCommand root _ = _
    rw [withoutCommand, hkept]
    exact intercalate_feed (List.ne_nil_of_mem (List.mem_filter.2 ⟨hl, by simpa using hne⟩))

omit [DecidableEq κ] in
/-- **A call that fits changes its own line and no other.** -/
theorem rawLines_change {root : String} {c : Call} (h : Fits E calls root c) :
    rawLines (change E root c) = c.intended E (rawLines root) := by
  rw [change_eq_unlines h]
  apply rawLines_unlines
  intro l hl
  cases c with
  | add job =>
    obtain hl | hl := List.mem_append.1 hl
    · exact feed_of_mem_rawLines hl
    · rw [List.mem_singleton.1 hl]
      exact h.2
  | remove job => exact feed_of_mem_rawLines (List.mem_of_mem_filter hl)

omit [DecidableEq κ] in
/-- calls that fit one after the other -/
theorem rawLines_run {root : String} {order : List κ}
    (h : Along (fun r i => change E r (calls i)) (fun r i => Fits E calls r (calls i)) root order) :
    rawLines (run (fun r i => change E r (calls i)) root order) =
      order.foldl (fun ls i => (calls i).intended E ls) (rawLines root) := by
  induction order generalizing root with
  | nil => rfl
  | cons i order ih =>
    rw [run_cons, ih h.2, rawLines_change h.1]
    rfl

variable (E calls)

def Call.job : Call → Job
  | .add job | .remove job => job

/-- the line that a call adds -/
def addedRule (i : κ) : Option String :=
  match calls i with
  | .add job => some (cronRule E job)
  | .remove _ => none

/-- the line that a call removes -/
def removedRule (i : κ) : Option String :=
  match calls i with
  | .add _ => none
  | .remove job => some (cronRule E job)

/-- the lines that were there, in order, less those of the removed jobs, and one line for each added job -/
def LosesNothing (root root' : String) : Prop :=
  ∃ order : List κ, order.Nodup ∧ (∀ i, i ∈ order) ∧
    rawLines root' = (rawLines root).filter (· ∉ order.filterMap (removedRule E calls)) ++
      order.filterMap (addedRule E calls)

variable {E calls}

omit [DecidableEq κ] in
/-- lines that are added stay if none of them is one that is removed -/
theorem foldl_intended (ls : List String) (order : List κ)
    (h : ∀ i ∈ order, ∀ j ∈ order, ∀ l, addedRule E calls i = some l → removedRule E calls j ≠ some l) :
    order.foldl (fun ls i => (calls i).intended E ls) ls =
      ls.filter (· ∉ order.filterMap (removedRule E calls)) ++ order.filterMap (addedRule E calls) := by
  induction order using List.reverseRecOn with
  | nil => simp
  | append_singleton order i ih =>
    have hsub : ∀ k ∈ order, k ∈ order ++ [i] := fun k hk => List.mem_append_left _ hk
    rw [List.foldl_append, ih fun k hk j hj => h k (hsub k hk) j (hsub j hj), List.filterMap_append, List.filterMap_append]
    cases hcall : calls i with
    | add job =>
      have hadded : addedRule E calls i = some (cronRule E job) := by rw [addedRule, hcall]
      have hremoved : removedRule E calls i = none := by rw [removedRule, hcall]
      simp [hcall, hadded, hremoved, Call.intended]
    | remove job =>
      have hadded : addedRule E calls i = none := by rw [addedRule, hcall]
      have hremoved : removedRule E calls i = some (cronRule E job) := by rw [removedRule, hcall]
      have hstay : (order.filterMap (addedRule E calls)).filter (· ≠ cronRule E job) =
          order.filterMap (addedRule E calls) := by
        rw [List.filter_eq_self]
        intro l hl
        obtain ⟨k, hk, hkl⟩ := List.mem_filterMap.1 hl
        have hne : some (cronRule E job) ≠ some l := hremoved ▸ h k (hsub k hk) i (by simp) l hkl
        exact decide_eq_true fun heq => hne (congrArg some heq.symm)
      show (calls i).intended E _ = _
      rw [hcall]
      show List.filter _ _ = _
      rw [List.filter_append, hstay, List.filter_filter]
      simp [hadded, hremoved, not_or, and_comm]

omit [DecidableEq κ] in
theorem fits_of_mem {root : String} {order : List κ} {i : κ} (hi : i ∈ order)
    (h : Along (fun r i => change E r (calls i)) (fun r i => Fits E calls r (calls i)) root order) :
    ∃ r, Fits E calls r (calls i) := by
  obtain ⟨pre, post, rfl⟩ := List.append_of_mem hi
  exact ⟨_, (along_iff _ _ _ _).1 h pre i post rfl⟩

omit [DecidableEq κ] in
/-- a line that is added is not one that is removed for another job -/
theorem removedRule_ne {root l : String} {i j : κ} (hjobs : ∀ i j, i ≠ j → (calls i).job.name ≠ (calls j).job.name)
    (hfits : Fits E calls root (calls j)) (hi : addedRule E calls i = some l) : removedRule E calls j ≠ some l := by
  intro hj
  unfold addedRule at hi
  unfold removedRule at hj
  cases hcallI : calls i with
  | remove job => simp [hcallI] at hi
  | add other => cases hcallJ : calls j with
    | add job => simp [hcallJ] at hj
    | remove job =>
      rw [hcallI] at hi
      rw [hcallJ] at hj hfits
      have hne : i ≠ j := by
        rintro rfl
        rw [hcallI] at hcallJ
        cases hcallJ
      have hname : other.name ≠ job.name := by
        have hij := hjobs i j hne
        rwa [hcallI, hcallJ] at hij
      apply hfits.2.2 i other hcallI hname
      rw [Option.some.inj (hi.trans hj.symm)]
      exact mentions_cronRule job

omit [DecidableEq κ] in
/-- a rule that is added and removed again leaves the crontab as it was -/
theorem change_add_remove {root : String} {job : Job} (hadd : Fits E calls root (.add job))
    (hremove : Fits E calls (change E root (.add job)) (.remove job)) (hnew : cronRule E job ∉ rawLines root) :
    change E (change E root (.add job)) (.remove job) = root := by
  have hkeep : (rawLines root).filter (· ≠ cronRule E job) = rawLines root := by
    rw [List.filter_eq_self]
    exact fun l hl => decide_eq_true (ne_of_mem_of_not_mem hl hnew)
  have hlines : Call.intended E (rawLines (change E root (.add job))) (.remove job) = rawLines root := by
    rw [rawLines_change hadd]
    show (rawLines root ++ [cronRule E job]).filter (· ≠ cronRule E job) = rawLines root
    rw [List.filter_append, hkeep]
    simp
  rw [change_eq_unlines hremove, hlines, unlines_rawLines hadd.1]

/-- **Where no step disturbs another call, and each call fits the crontab that it finds, nothing is lost**: in every state
the calls that have returned have changed the lines one after the other; once all have returned, for different jobs, the
lines are those that were there, less the lines of the removed jobs, and one line for each added job; and a job that is
removed after it was added leaves the crontab as it was. -/
theorem crontab_keeps_lines (root tmp : String) (schedule : List κ)
    (hok : Along (step E) (StepOk E calls) (init calls root tmp) schedule) :
    let s := run (step E) (init calls root tmp) schedule
    (s.installed.Nodup ∧ (∀ i, i ∈ s.installed ↔ s.procs i = .returned (.ok ())) ∧
      rawLines s.root = s.installed.foldl (fun ls i => (calls i).intended E ls) (rawLines root)) ∧
    ((∀ i, s.procs i = .returned (.ok ())) → (∀ i j, i ≠ j → (calls i).job.name ≠ (calls j).job.name) →
      LosesNothing E calls root s.root) ∧
    ∀ i j job, s.installed = [i, j] → calls i = .add job → calls j = .remove job → cronRule E job ∉ rawLines root →
      s.root = root := by
  intro s
  have h : Serial E calls root s := serial_of_run hok
  have hlines : rawLines s.root = s.installed.foldl (fun ls i => (calls i).intended E ls) (rawLines root) := by
    rw [h.root, rawLines_run h.fits]
  refine ⟨⟨h.nodup, h.mem, hlines⟩, fun hdone hjobs => ?_, fun i j job hinstalled hadd hremove hnew => ?_⟩
  · refine ⟨s.installed, h.nodup, fun i => (h.mem i).2 (hdone i), ?_⟩
    rw [hlines]
    refine foldl_intended _ _ fun i _ j hj l hadded => ?_
    obtain ⟨r, hfits⟩ := fits_of_mem hj h.fits
    exact removedRule_ne hjobs hfits hadded
  · have hfits := h.fits
    rw [hinstalled] at hfits
    obtain ⟨hfitsAdd, hfitsRemove, -⟩ := hfits
    have hfitsRemove : Fits E calls (change E root (calls i)) (calls j) := hfitsRemove
    rw [hadd] at hfitsAdd
    rw [hadd, hremove] at hfitsRemove
    rw [h.root, hinstalled]
    show change E (change E root (calls i)) (calls j) = root
    rw [hadd, hremove]
    exact change_add_remove hfitsAdd hfitsRemove hnew

/-! ### Two jobs -/

/-- nothing fails, and `crontab` takes every file over -/
def Env.plain : Env Bool := ⟨["unix:///run/nanocl/nanocl.sock"], "0.16.0", fun _ _ => none, fun _ => true⟩

def backup : Job := ⟨"backup", "0 3 * * *"⟩

def clean : Job := ⟨"clean", "0 4 * * *"⟩

/-- `backup` is added while `clean` is removed -/
def addAndRemove : Bool → Call
  | false => .add backup
  | true => .remove clean

/-- a crontab with the rule of `clean` behind another line -/
def oldCrontab : String := unlines ["@daily true", cronRule Env.plain clean]

theorem oldCrontab_lines : rawLines oldCrontab = ["@daily true", cronRule Env.plain clean] :=
  rawLines_unlines (by decide +kernel)

theorem oldCrontab_fits : Fits Env.plain addAndRemove oldCrontab (.remove clean) := by
  refine ⟨?_, ?_, ?_⟩
  · rw [oldCrontab_lines]
    decide +kernel
  · rw [oldCrontab_lines]
    exact ⟨"@daily true", List.mem_cons_self, by decide +kernel⟩
  · intro i other hadd _
    cases i with
    | false =>
      obtain rfl := Call.add.inj hadd
      decide +kernel
    | true => cases hadd

theorem newCrontab_fits :
    Fits Env.plain addAndRemove (change Env.plain oldCrontab (.remove clean)) (.add backup) := by
  refine ⟨?_, by decide +kernel⟩
  rw [change_eq_unlines oldCrontab_fits]
  exact terminated_unlines _

/-- the rule of `clean` is removed, and then that of `backup` is added -/
theorem one_after_the_other :
    let s := run (step Env.plain) (init addAndRemove oldCrontab "") [true, true, true, false, false, false, false]
    (s.installed.Nodup ∧ (∀ i, i ∈ s.installed ↔ s.procs i = .returned (.ok ())) ∧
      rawLines s.root = s.installed.foldl (fun ls i => (addAndRemove i).intended Env.plain ls) (rawLines oldCrontab)) ∧
    ((∀ i, s.procs i = .returned (.ok ())) →
      (∀ i j, i ≠ j → (addAndRemove i).job.name ≠ (addAndRemove j).job.name) →
      LosesNothing Env.plain addAndRemove oldCrontab s.root) ∧
    ∀ i j job, s.installed = [i, j] → addAndRemove i = .add job → addAndRemove j = .remove job →
      cronRule Env.plain job ∉ rawLines oldCrontab → s.root = oldCrontab := by
  apply crontab_keeps_lines
  have hidle : ∀ s : State Bool, s.procs false = .add backup → ∀ j, j ≠ true → ¬ (s.procs j).Holds ∧ ¬ (s.procs j).Reads := by
    intro s hproc j hj
    cases j with
    | false =>
      rw [hproc]
      exact ⟨id, id⟩
    | true => exact absurd rfl hj
  have hdone : ∀ s : State Bool, s.procs true = .returned (.ok ()) → ∀ j, j ≠ false →
      ¬ (s.procs j).Holds ∧ ¬ (s.procs j).Reads := by
    intro s hproc j hj
    cases j with
    | true =>
      rw [hproc]
      exact ⟨id, id⟩
    | false => exact absurd rfl hj
  exact ⟨oldCrontab_fits, fun j hj => (hidle _ rfl j hj).1, ⟨rfl, fun j hj => (hidle _ rfl j hj).2⟩,
    ⟨newCrontab_fits, fun j hj => (hdone _ rfl j hj).1⟩, trivial, trivial, ⟨rfl, fun j hj => (hdone _ rfl j hj).2⟩, trivial⟩

/-- two jobs are added -/
def twoAdds : Bool → Call
  | false => .add backup
  | true => .add clean

/-- **A rule is lost**: both rules are added to a copy of the crontab, and the second copy replaces the first one before
`crontab` takes it over. -/
theorem rule_lost :
    ¬ ∀ (calls : Bool → Call) (root tmp : String) (schedule : List Bool),
      (∀ i, (run (step Env.plain) (init calls root tmp) schedule).procs i = .returned (.ok ())) →
      (∀ i j, i ≠ j → (calls i).job.name ≠ (calls j).job.name) →
      LosesNothing Env.plain calls root (run (step Env.plain) (init calls root tmp) schedule).root := by
  intro h
  have hdone : ∀ i, (run (step Env.plain) (init twoAdds "" "")
      [false, false, false, true, true, true, false, true]).procs i = .returned (.ok ()) := by
    intro i
    cases i <;> rfl
  obtain ⟨order, -, hall, hlines⟩ := h twoAdds "" "" _ hdone (by decide +kernel)
  have hroot : (run (step Env.plain) (init twoAdds "" "") [false, false, false, true, true, true, false, true]).root =
      unlines [cronRule Env.plain clean] := rfl
  have hadded : cronRule Env.plain backup ∈ order.filterMap (addedRule Env.plain twoAdds) :=
    List.mem_filterMap.2 ⟨false, hall false, rfl⟩
  have hmem := List.mem_append_right ((rawLines "").filter (· ∉ order.filterMap (removedRule Env.plain twoAdds))) hadded
  rw [← hlines, hroot, rawLines_unlines (by decide +kernel)] at hmem
  exact absurd hmem (by decide +kernel)

end Nanocl.Crontab
