/-
Sequential programs over a state that end with a value or an error. The state at the error is kept: what a program did
before it failed stays done.

- `forEach` stops at the first error; `joinAll` runs every program of a list, then answers with the results or with the
  first error (a set of futures that are all awaited before their results are collected).
- `Keeps R m`: every run of `m` relates its two states by `R`. For a preorder the rule is compositional, so an invariant
  or a frame condition of the primitive steps is one of every program built from them.
- `FailsOnly P m`: the errors of `m` are of a class; compositional too.
- `Ensures Q m`: what holds of the state after a run of `m` that returns.
- `Advances clock n m`: a run of `m` that returns moves the clock by `n`.
- `forEach_ok`, `joinAll_ok`: a loop that returns has run its body on each element.
- `forEach_returns`, `joinAll_returns`: a loop returns if every round does, under an invariant about the elements left.
- `forEach_ok_foldl`: a loop that returns folds what its rounds make of a part of the state.
- `forEach_eq_foldl`: where no element fails, a loop is the fold of what its body does to the state.
-/
import Nanocl.Lib.Except
import Mathlib.Algebra.GroupWithZero.Nat
import Mathlib.Order.Defs.Unbundled

namespace Nanocl.Lib

/-- a program over the state `σ` that returns an `α` or fails with an `ε` -/
def Prog (σ ε α : Type) := σ → Except ε α × σ

namespace Prog

variable {σ ε α β γ : Type}

instance : Monad (Prog σ ε) where
  pure a s := (.ok a, s)
  bind m f s :=
    match m s with
    | (.ok a, s') => f a s'
    | (.error e, s') => (.error e, s')

def fail (e : ε) : Prog σ ε α := fun s => (.error e, s)

/-- read the state -/
def get : Prog σ ε σ := fun s => (.ok s, s)

def modify (f : σ → σ) : Prog σ ε Unit := fun s => (.ok (), f s)

/-- a step that cannot fail -/
def lift (f : σ → α × σ) : Prog σ ε α := fun s => (.ok (f s).1, (f s).2)

/-- run a program and hand its result over, whatever it is -/
def attempt {ε' : Type} (m : Prog σ ε α) : Prog σ ε' (Except ε α) := fun s => (.ok (m s).1, (m s).2)

/-- run the body on each element, up to the first error -/
def forEach : List α → (α → Prog σ ε Unit) → Prog σ ε Unit
  | [], _ => pure ()
  | a :: l, f => do
    f a
    forEach l f

/-- run the body on each element, whatever fails, and collect the results -/
def runAll : List α → (α → Prog σ ε β) → σ → List (Except ε β) × σ
  | [], _, s => ([], s)
  | a :: l, f, s =>
    let (r, s') := f a s
    let (rs, s'') := runAll l f s'
    (r :: rs, s'')

/-- run the body on each element, whatever fails; then return the values, or the first error -/
def joinAll (l : List α) (f : α → Prog σ ε β) : Prog σ ε (List β) := fun s =>
  ((runAll l f s).1.mapM id, (runAll l f s).2)

/-! ## Running -/

@[simp] theorem run_pure (a : α) (s : σ) : (pure a : Prog σ ε α) s = (.ok a, s) := rfl

@[simp] theorem run_fail (e : ε) (s : σ) : (fail e : Prog σ ε α) s = (.error e, s) := rfl

@[simp] theorem run_get (s : σ) : (get : Prog σ ε σ) s = (.ok s, s) := rfl

@[simp] theorem run_modify (f : σ → σ) (s : σ) : (modify f : Prog σ ε Unit) s = (.ok (), f s) := rfl

@[simp] theorem run_lift (f : σ → α × σ) (s : σ) : (lift f : Prog σ ε α) s = (.ok (f s).1, (f s).2) := rfl

@[simp] theorem run_attempt {ε' : Type} (m : Prog σ ε α) (s : σ) :
    (attempt m : Prog σ ε' (Except ε α)) s = (.ok (m s).1, (m s).2) := rfl

theorem run_bind (m : Prog σ ε α) (f : α → Prog σ ε β) (s : σ) :
    (m >>= f) s = match m s with
      | (.ok a, s') => f a s'
      | (.error e, s') => (.error e, s') := rfl

theorem bind_of_ok {m : Prog σ ε α} {f : α → Prog σ ε β} {s s' : σ} {a : α} (h : m s = (.ok a, s')) :
    (m >>= f) s = f a s' := by
  rw [run_bind, h]

theorem bind_of_error {m : Prog σ ε α} {f : α → Prog σ ε β} {s s' : σ} {e : ε} (h : m s = (.error e, s')) :
    (m >>= f) s = (.error e, s') := by
  rw [run_bind, h]

@[simp] theorem pure_bind (a : α) (f : α → Prog σ ε β) (s : σ) : ((pure a : Prog σ ε α) >>= f) s = f a s := rfl

@[simp] theorem fail_bind (e : ε) (f : α → Prog σ ε β) (s : σ) : ((fail e : Prog σ ε α) >>= f) s = (.error e, s) := rfl

@[simp] theorem get_bind (f : σ → Prog σ ε β) (s : σ) : (get >>= f) s = f s s := rfl

@[simp] theorem modify_bind (g : σ → σ) (f : Unit → Prog σ ε β) (s : σ) : (modify g >>= f) s = f () (g s) := rfl

theorem bind_pure (m : Prog σ ε α) (s : σ) : (m >>= pure) s = m s := by
  rw [run_bind]
  rcases m s with ⟨e | a, s'⟩ <;> rfl

instance : LawfulMonad (Prog σ ε) := by
  refine LawfulMonad.mk' _ (fun m => ?_) (fun _ _ => rfl) fun m _ _ => ?_
  · funext s
    change (match m s with | (.ok a, s') => (.ok a, s') | (.error e, s') => (.error e, s')) = m s
    rcases m s with ⟨e | a, s'⟩ <;> rfl
  · funext s
    simp only [run_bind]
    rcases m s with ⟨e | a, s'⟩ <;> rfl

/-- a loop over two lists, one after the other -/
theorem forEach_append (l l' : List α) (f : α → Prog σ ε Unit) :
    forEach (l ++ l') f = forEach l f >>= fun _ => forEach l' f := by
  induction l with
  | nil => rfl
  | cons a l ih => simp only [List.cons_append, forEach, ih, bind_assoc]

theorem discard_bind (m : Prog σ ε α) (g : Unit → Prog σ ε β) (s : σ) :
    ((do let _ ← m; return ()) >>= g) s = (m >>= fun _ => g ()) s := by
  simp only [run_bind]
  rcases m s with ⟨e | a, s'⟩ <;> rfl

theorem snd_bind_pure (m : Prog σ ε α) (f : α → β) (s : σ) : ((m >>= fun a => pure (f a)) s).2 = (m s).2 := by
  rw [run_bind]
  rcases m s with ⟨e | a, s'⟩ <;> rfl

/-- a sequence returns exactly if both parts do -/
theorem bind_ok {m : Prog σ ε α} {f : α → Prog σ ε β} {s : σ} {b : β} (h : ((m >>= f) s).1 = .ok b) :
    ∃ a s', m s = (.ok a, s') ∧ (f a s').1 = .ok b ∧ (m >>= f) s = f a s' := by
  rcases hm : m s with ⟨e | a, s'⟩
  · rw [bind_of_error hm] at h
    cases h
  · rw [bind_of_ok hm] at h
    exact ⟨a, s', rfl, h, bind_of_ok hm⟩

theorem bind_eq_ok {m : Prog σ ε α} {f : α → Prog σ ε β} {s s' : σ} {b : β} (h : (m >>= f) s = (.ok b, s')) :
    ∃ a s₁, m s = (.ok a, s₁) ∧ f a s₁ = (.ok b, s') := by
  obtain ⟨a, s₁, hm, -, heq⟩ := bind_ok (congrArg Prod.fst h)
  exact ⟨a, s₁, hm, heq.symm.trans h⟩

theorem eq_of_ok {m : Prog σ ε α} {s : σ} {a : α} (h : (m s).1 = .ok a) : m s = (.ok a, (m s).2) := Prod.ext h rfl

/-! ## Frames and invariants -/

/-- the program fails with errors of the class `P` only -/
def FailsOnly (P : ε → Prop) (m : Prog σ ε α) : Prop := ∀ s e, (m s).1 = .error e → P e

section FailsOnly

variable {P : ε → Prop}

theorem failsOnly_pure (a : α) : FailsOnly P (pure a : Prog σ ε α) := fun _ _ h => by cases h

theorem failsOnly_modify (f : σ → σ) : FailsOnly P (modify f) := fun _ _ h => by cases h

theorem failsOnly_get : FailsOnly P (get : Prog σ ε σ) := fun _ _ h => by cases h

theorem failsOnly_fail {e : ε} (h : P e) : FailsOnly P (fail e : Prog σ ε α) := fun _ _ h' => by
  obtain rfl := Except.error.inj h'
  exact h

theorem failsOnly_bind {m : Prog σ ε α} {f : α → Prog σ ε β} (hm : FailsOnly P m) (hf : ∀ a, FailsOnly P (f a)) :
    FailsOnly P (m >>= f) := by
  intro s e h
  rcases hs : m s with ⟨e' | a, s'⟩
  · rw [bind_of_error hs] at h
    obtain rfl := Except.error.inj h
    exact hm s e' (by rw [hs])
  · rw [bind_of_ok hs] at h
    exact hf a s' e h

theorem failsOnly_forEach {l : List α} {f : α → Prog σ ε Unit} (hf : ∀ a, FailsOnly P (f a)) :
    FailsOnly P (forEach l f) := by
  induction l with
  | nil => exact failsOnly_pure ()
  | cons a l ih => exact failsOnly_bind (hf a) fun _ => ih

end FailsOnly

/-- a run that returns ends in a state of the class `Q` -/
def Ensures (Q : σ → Prop) (m : Prog σ ε α) : Prop := ∀ s a, (m s).1 = .ok a → Q (m s).2

/-- what the last part ensures, the sequence ensures -/
theorem ensures_bind {Q : σ → Prop} {m : Prog σ ε α} {f : α → Prog σ ε β} (hf : ∀ a, Ensures Q (f a)) :
    Ensures Q (m >>= f) := by
  intro s b h
  obtain ⟨a, s', -, hok, heq⟩ := bind_ok h
  rw [heq]
  exact hf a s' b hok

/-- what the first part ensures and the last part keeps, the sequence ensures -/
theorem ensures_bind_of_keeps {Q : σ → Prop} {m : Prog σ ε α} {f : α → Prog σ ε β} (hm : Ensures Q m)
    (hf : ∀ a s, Q s → Q (f a s).2) : Ensures Q (m >>= f) := by
  intro s b h
  obtain ⟨a, s', hs, -, heq⟩ := bind_ok h
  rw [heq]
  refine hf a s' ?_
  have := hm s a (by rw [hs])
  rwa [hs] at this

/-! ## Clocks -/

/-- a run that returns moves the clock by so much -/
def Advances (clock : σ → ℕ) (n : ℕ) (m : Prog σ ε α) : Prop := ∀ s a s', m s = (.ok a, s') → clock s' = clock s + n

section Advances

variable {clock : σ → ℕ}

theorem Advances.of_eq {m n : ℕ} {p : Prog σ ε α} (h : Advances clock m p) (hn : m = n) : Advances clock n p := hn ▸ h

theorem advances_pure (a : α) : Advances clock 0 (pure a : Prog σ ε α) := by
  intro s _ s' h
  obtain ⟨-, rfl⟩ := Prod.mk.inj h
  rfl

theorem advances_fail (n : ℕ) (e : ε) : Advances clock n (fail e : Prog σ ε α) := by
  intro s _ s' h
  cases h

theorem advances_get : Advances clock 0 (get : Prog σ ε σ) := by
  intro s _ s' h
  obtain ⟨-, rfl⟩ := Prod.mk.inj h
  rfl

theorem advances_modify {n : ℕ} {f : σ → σ} (hf : ∀ s, clock (f s) = clock s + n) :
    Advances clock n (modify f : Prog σ ε Unit) := by
  intro s _ s' h
  obtain ⟨-, rfl⟩ := Prod.mk.inj h
  exact hf s

theorem advances_lift {n : ℕ} {f : σ → α × σ} (hf : ∀ s, clock (f s).2 = clock s + n) :
    Advances clock n (lift f : Prog σ ε α) := by
  intro s _ s' h
  obtain ⟨-, rfl⟩ := Prod.mk.inj h
  exact hf s

theorem advances_bind {m n : ℕ} {p : Prog σ ε α} {f : α → Prog σ ε β} (hp : Advances clock m p)
    (hf : ∀ a, Advances clock n (f a)) : Advances clock (m + n) (p >>= f) := by
  intro s b s' h
  obtain ⟨a, s₁, h₁, h₂⟩ := bind_eq_ok h
  rw [hf a s₁ b s' h₂, hp s a s₁ h₁, Nat.add_assoc]

theorem advances_joinAll {n : α → ℕ} {l : List α} {f : α → Prog σ ε β} (hf : ∀ a, Advances clock (n a) (f a)) :
    Advances clock (l.map n).sum (joinAll l f) := by
  induction l with
  | nil => exact advances_pure []
  | cons a l ih =>
    intro s bs s' h
    obtain ⟨b, bs', hb, hbs, -⟩ := List.forall₂_cons_left_iff.1 (mapM_eq_ok_iff.1 (congrArg Prod.fst h))
    have hlast : (joinAll l f (f a s).2).2 = s' := congrArg Prod.snd h
    have hrest : joinAll l f (f a s).2 = (.ok bs', s') := Prod.ext (mapM_eq_ok_iff.2 hbs) hlast
    rw [ih _ bs' s' hrest, hf a s b _ (eq_of_ok hb), List.map_cons, List.sum_cons, Nat.add_assoc]

end Advances

/-- every run of the program relates its two states by `R` -/
def Keeps (R : σ → σ → Prop) (m : Prog σ ε α) : Prop := ∀ s, R s (m s).2

section Keeps

variable {R : σ → σ → Prop} [IsPreorder σ R]

theorem keeps_pure (a : α) : Keeps R (pure a : Prog σ ε α) := Std.Refl.refl

theorem keeps_fail (e : ε) : Keeps R (fail e : Prog σ ε α) := Std.Refl.refl

theorem keeps_get : Keeps R (get : Prog σ ε σ) := Std.Refl.refl

theorem keeps_bind {m : Prog σ ε α} {f : α → Prog σ ε β} (hm : Keeps R m) (hf : ∀ a, Keeps R (f a)) :
    Keeps R (m >>= f) := by
  intro s
  have hms := hm s
  rcases hs : m s with ⟨e | a, s'⟩
  · rw [bind_of_error hs]
    rwa [hs] at hms
  · rw [bind_of_ok hs]
    rw [hs] at hms
    exact IsTrans.trans s s' _ hms (hf a s')

/-- the rest of a sequence relates the state after its first part to the last one -/
theorem keeps_rest {m : Prog σ ε α} {f : α → Prog σ ε β} (hf : ∀ a, Keeps R (f a)) (s : σ) :
    R (m s).2 ((m >>= f) s).2 := by
  rcases hm : m s with ⟨e | a, s'⟩
  · rw [bind_of_error hm]
    exact Std.Refl.refl s'
  · rw [bind_of_ok hm]
    exact hf a s'

omit [IsPreorder σ R] in
theorem keeps_attempt {ε' : Type} {m : Prog σ ε α} (hm : Keeps R m) : Keeps R (attempt m : Prog σ ε' (Except ε α)) := hm

theorem keeps_forEach {l : List α} {f : α → Prog σ ε Unit} (hf : ∀ a ∈ l, Keeps R (f a)) : Keeps R (forEach l f) := by
  induction l with
  | nil => exact keeps_pure ()
  | cons a l ih =>
    exact keeps_bind (hf a (List.mem_cons_self ..)) fun _ => ih fun b hb => hf b (List.mem_cons_of_mem _ hb)

theorem runAll_rel {l : List α} {f : α → Prog σ ε β} (hf : ∀ a ∈ l, Keeps R (f a)) (s : σ) :
    R s (runAll l f s).2 := by
  induction l generalizing s with
  | nil => exact Std.Refl.refl s
  | cons a l ih =>
    exact IsTrans.trans _ _ _ (hf a (List.mem_cons_self ..) s)
      (ih (fun b hb => hf b (List.mem_cons_of_mem _ hb)) _)

theorem keeps_joinAll {l : List α} {f : α → Prog σ ε β} (hf : ∀ a ∈ l, Keeps R (f a)) : Keeps R (joinAll l f) :=
  fun s => runAll_rel hf s

/-- a join that returns has run its body on the first element, and then joined the rest -/
theorem joinAll_cons_ok {a : α} {l : List α} {f : α → Prog σ ε β} {s : σ} {bs : List β}
    (h : (joinAll (a :: l) f s).1 = .ok bs) :
    ∃ b bs', (f a s).1 = .ok b ∧ (joinAll l f (f a s).2).1 = .ok bs' ∧ bs = b :: bs' ∧
      (joinAll (a :: l) f s).2 = (joinAll l f (f a s).2).2 := by
  obtain ⟨b, bs', hb, hbs, heq⟩ := List.forall₂_cons_left_iff.1 (mapM_eq_ok_iff.1 h)
  exact ⟨b, bs', hb, mapM_eq_ok_iff.2 hbs, heq, rfl⟩

/-- a loop that returns has run its body on each element, between related states -/
theorem forEach_ok {l : List α} {f : α → Prog σ ε Unit} (hf : ∀ a ∈ l, Keeps R (f a)) {s : σ}
    (h : (forEach l f s).1 = .ok ()) {a : α} (ha : a ∈ l) :
    ∃ s', R s s' ∧ (f a s').1 = .ok () ∧ R (f a s').2 (forEach l f s).2 := by
  induction l generalizing s with
  | nil => cases ha
  | cons b l ih =>
    obtain ⟨u, s₁, hb, hl, heq⟩ := bind_ok h
    have hf' : ∀ a ∈ l, Keeps R (f a) := fun c hc => hf c (List.mem_cons_of_mem _ hc)
    have hsb : R s s₁ := by simpa [hb] using hf b (List.mem_cons_self ..) s
    change (forEach (b :: l) f) s = _ at heq
    rw [heq]
    rcases List.mem_cons.1 ha with rfl | ha
    · refine ⟨s, Std.Refl.refl s, by rw [hb], ?_⟩
      rw [hb]
      exact keeps_forEach hf' s₁
    · obtain ⟨s', h1, h2, h3⟩ := ih hf' hl ha
      exact ⟨s', IsTrans.trans _ _ _ hsb h1, h2, h3⟩

/-- a loop that returns relates its states by what a round that returns relates -/
theorem forEach_ok_rel {l : List α} {f : α → Prog σ ε Unit} (hf : ∀ a ∈ l, ∀ s, (f a s).1 = .ok () → R s (f a s).2)
    {s : σ} (h : (forEach l f s).1 = .ok ()) : R s (forEach l f s).2 := by
  induction l generalizing s with
  | nil => exact Std.Refl.refl s
  | cons a l ih =>
    obtain ⟨_, s₁, ha, hl, heq⟩ := bind_ok h
    have hfirst : R s s₁ := by simpa [ha] using hf a (List.mem_cons_self ..) s (by rw [ha])
    change (forEach (a :: l) f) s = _ at heq
    rw [heq]
    exact IsTrans.trans _ _ _ hfirst (ih (fun b hb => hf b (List.mem_cons_of_mem _ hb)) hl)

/-- each element of a joined list is run, between related states -/
theorem runAll_mem {l : List α} {f : α → Prog σ ε β} (hf : ∀ a ∈ l, Keeps R (f a)) (s : σ) {a : α} (ha : a ∈ l) :
    ∃ s', R s s' ∧ (f a s').1 ∈ (runAll l f s).1 ∧ R (f a s').2 (runAll l f s).2 := by
  induction l generalizing s with
  | nil => cases ha
  | cons b l ih =>
    have hf' : ∀ a ∈ l, Keeps R (f a) := fun c hc => hf c (List.mem_cons_of_mem _ hc)
    rcases List.mem_cons.1 ha with rfl | ha
    · exact ⟨s, Std.Refl.refl s, List.mem_cons_self .., runAll_rel hf' _⟩
    · obtain ⟨s', h1, h2, h3⟩ := ih hf' (f b s).2 ha
      exact ⟨s', IsTrans.trans _ _ _ (hf b (List.mem_cons_self ..) s) h1, List.mem_cons_of_mem _ h2, h3⟩

/-- a join that returns has run its body on each element without an error -/
theorem joinAll_ok {l : List α} {f : α → Prog σ ε β} (hf : ∀ a ∈ l, Keeps R (f a)) {s : σ} {bs : List β}
    (h : (joinAll l f s).1 = .ok bs) {a : α} (ha : a ∈ l) :
    ∃ s' b, R s s' ∧ (f a s').1 = .ok b ∧ b ∈ bs ∧ R (f a s').2 (joinAll l f s).2 := by
  obtain ⟨s', h1, h2, h3⟩ := runAll_mem hf s ha
  obtain ⟨b, hb, hfb⟩ := exists_mem_of_mapM h h2
  exact ⟨s', b, h1, hfb, hb, h3⟩

end Keeps

/-! ## Loops that return -/

/-- a loop returns if every round does, under an invariant about the elements still to come -/
theorem forEach_returns {f : α → Prog σ ε Unit} (I : List α → σ → Prop)
    (hf : ∀ a l s, I (a :: l) s → ∃ s', f a s = (.ok (), s') ∧ I l s') {l : List α} {s : σ} (hs : I l s) :
    ∃ s', forEach l f s = (.ok (), s') ∧ I [] s' := by
  induction l generalizing s with
  | nil => exact ⟨s, rfl, hs⟩
  | cons a l ih =>
    obtain ⟨s₁, ha, hI⟩ := hf a l s hs
    obtain ⟨s', hl, hI'⟩ := ih hI
    exact ⟨s', (bind_of_ok ha).trans hl, hI'⟩

theorem runAll_returns {f : α → Prog σ ε β} (I : List α → σ → Prop)
    (hf : ∀ a l s, I (a :: l) s → ∃ b s', f a s = (.ok b, s') ∧ I l s') {l : List α} {s : σ} (hs : I l s) :
    ∃ (bs : List β) (s' : σ), runAll l f s = (bs.map Except.ok, s') ∧ I [] s' := by
  induction l generalizing s with
  | nil => exact ⟨[], s, rfl, hs⟩
  | cons a l ih =>
    obtain ⟨b, s₁, ha, hI⟩ := hf a l s hs
    obtain ⟨bs, s', hl, hI'⟩ := ih hI
    exact ⟨b :: bs, s', by simp only [runAll, ha, hl, List.map_cons], hI'⟩

theorem mapM_id_ok (bs : List β) : (bs.map Except.ok).mapM id = (.ok bs : Except ε (List β)) :=
  mapM_eq_ok_iff.2 (by induction bs <;> simp_all)

/-- a join returns if every element does, under an invariant about the elements still to come -/
theorem joinAll_returns {f : α → Prog σ ε β} (I : List α → σ → Prop)
    (hf : ∀ a l s, I (a :: l) s → ∃ b s', f a s = (.ok b, s') ∧ I l s') {l : List α} {s : σ} (hs : I l s) :
    ∃ (bs : List β) (s' : σ), joinAll l f s = (.ok bs, s') ∧ I [] s' := by
  obtain ⟨bs, s', hrun, hI⟩ := runAll_returns I hf hs
  exact ⟨bs, s', by simp only [joinAll, hrun, mapM_id_ok], hI⟩

/-- a loop that returns folds what a round that returns makes of the part of the state that `view` shows -/
theorem forEach_ok_foldl {τ : Type} {f : α → Prog σ ε Unit} {P : α → Prop} {view : σ → τ} {g : τ → α → τ}
    (hf : ∀ a s s', f a s = (.ok (), s') → P a ∧ view s' = g (view s) a) {l : List α} {s s' : σ}
    (h : forEach l f s = (.ok (), s')) : (∀ a ∈ l, P a) ∧ view s' = l.foldl g (view s) := by
  induction l generalizing s with
  | nil => exact ⟨fun _ ha => absurd ha List.not_mem_nil, congrArg view (Prod.mk.inj h).2.symm⟩
  | cons a l ih =>
    obtain ⟨_, s₁, ha, hl⟩ := bind_eq_ok h
    obtain ⟨hP, hview⟩ := hf a s s₁ ha
    obtain ⟨hall, hfold⟩ := ih hl
    exact ⟨List.forall_mem_cons.2 ⟨hP, hall⟩, by rw [hfold, hview, List.foldl_cons]⟩

/-! ## Loops without an error -/

/-- a loop whose body never fails under the invariant folds what the body does -/
theorem forEach_eq_foldl {l : List α} {f : α → Prog σ ε Unit} (I : σ → Prop) (g : σ → α → σ)
    (hf : ∀ a ∈ l, ∀ s, I s → f a s = (.ok (), g s a) ∧ I (g s a)) {s : σ} (hs : I s) :
    forEach l f s = (.ok (), l.foldl g s) ∧ I (l.foldl g s) := by
  induction l generalizing s with
  | nil => exact ⟨rfl, hs⟩
  | cons a l ih =>
    obtain ⟨ha, hI⟩ := hf a (List.mem_cons_self ..) s hs
    obtain ⟨h1, h2⟩ := ih (fun b hb => hf b (List.mem_cons_of_mem _ hb)) hI
    exact ⟨(bind_of_ok ha).trans h1, h2⟩

end Prog

end Nanocl.Lib
