/-
The order in which a state and the states it includes are applied. A call of `parse_state_file_recurr` appends the lists
of its sub states to its own state and reverses the whole; the lists of the sub states have been reversed before.

- `Unfolds`: the include tree of a call, one node for each call that it makes in turn.
- `parse_order`: a call that unfolds to a tree returns `order`, the reversal at each level.
- `ordered_iff`: every state comes after the states it includes, and sub states in the order they are declared, exactly
  if the state includes nothing, or one state that includes nothing.
- `included_late`: a state that is included by an included one is applied after it.
-/
import Nanocl.Cli.Statefile

namespace Nanocl.Cli

open Nanocl.Lib Nanocl.Objects

variable {δ : Type} (E : StateEnv δ)

/-! ## Include trees -/

/-- a rendered state with the trees of its sub states -/
inductive Tree (δ : Type) where
  | node (state : StateRef δ) (subs : List (Tree δ))

mutual
/-- all states of a tree -/
def Tree.states : Tree δ → List (StateRef δ)
  | .node state subs => state :: statesOf subs

def statesOf : List (Tree δ) → List (StateRef δ)
  | [] => []
  | t :: ts => t.states ++ statesOf ts
end

mutual
/-- what a call returns for a tree -/
def Tree.order : Tree δ → List (StateRef δ)
  | .node state subs => (state :: orderOf subs).reverse

def orderOf : List (Tree δ) → List (StateRef δ)
  | [] => []
  | t :: ts => t.order ++ orderOf ts
end

mutual
def Tree.depth : Tree δ → ℕ
  | .node _ subs => depthOf subs + 1

def depthOf : List (Tree δ) → ℕ
  | [] => 0
  | t :: ts => max t.depth (depthOf ts)
end

mutual
/-- the call renders the states of the tree -/
def Unfolds (call : List ℕ) (state : StateRef δ) (args : Args) : Tree δ → Prop
  | .node state' subs => renderState E call state args = .ok state' ∧ UnfoldsAll call state' 0 state'.subStates subs

/-- the sub states from number `i` on -/
def UnfoldsAll (call : List ℕ) (state : StateRef δ) (i : ℕ) : List SubState → List (Tree δ) → Prop
  | [], [] => True
  | sub :: rest, t :: ts =>
    (∃ subState, readSubState E (call ++ [i]) state sub.target = .ok subState ∧
      Unfolds (call ++ [i]) subState sub.args t) ∧ UnfoldsAll call state (i + 1) rest ts
  | _, _ => False
end

/-! ## Property and condition -/

/-- the first state has to be applied before the second one: it is included by it, directly or not, or it belongs to a
sub state that is declared earlier -/
inductive Before : Tree δ → StateRef δ → StateRef δ → Prop
  | included {state : StateRef δ} {subs : List (Tree δ)} {a : StateRef δ} :
      a ∈ statesOf subs → Before (.node state subs) a state
  | declared {state : StateRef δ} {subs : List (Tree δ)} {t u : Tree δ} {a b : StateRef δ} :
      [t, u].Sublist subs → a ∈ t.states → b ∈ u.states → Before (.node state subs) a b
  | deeper {state : StateRef δ} {subs : List (Tree δ)} {t : Tree δ} {a b : StateRef δ} :
      t ∈ subs → Before t a b → Before (.node state subs) a b

/-- **Sub states before the states that include them, and in their order** -/
structure Ordered (t : Tree δ) (states : List (StateRef δ)) : Prop where
  all : states.Perm t.states
  before : ∀ a b, Before t a b → [a, b].Sublist states

/-- the state includes nothing, or one state that includes nothing -/
def Tree.Shallow : Tree δ → Prop
  | .node _ [] => True
  | .node _ [.node _ []] => True
  | _ => False

/-! ## What a call returns -/

theorem orderOf_eq (ts : List (Tree δ)) : orderOf ts = (ts.map Tree.order).flatten := by
  induction ts with
  | nil => rfl
  | cons t ts ih => rw [orderOf, ih, List.map_cons, List.flatten_cons]

variable {E}

mutual
/-- **A call that unfolds to a tree returns its order**, with enough fuel for the depth of the tree -/
theorem parse_order {call : List ℕ} {state : StateRef δ} {args : Args} {t : Tree δ} (h : Unfolds E call state args t)
    {fuel : ℕ} (hfuel : t.depth ≤ fuel) : parseStateFileRecurr E fuel call state args = some (.ok t.order) := by
  match t, fuel with
  | .node state' subs, fuel + 1 =>
    obtain ⟨hrender, hsubs⟩ := h
    rw [Tree.depth, Nat.add_le_add_iff_right] at hfuel
    have hjoin := joinOutcomes_eq_ok.2 (parse_orderOf hsubs hfuel)
    simp only [Nat.zero_add] at hjoin
    rw [parse_succ hrender, hjoin, Tree.order, orderOf_eq]
    rfl

theorem parse_orderOf {call : List ℕ} {state : StateRef δ} {i : ℕ} {subs : List SubState} {ts : List (Tree δ)}
    (h : UnfoldsAll E call state i subs ts) {fuel : ℕ} (hfuel : depthOf ts ≤ fuel) :
    List.Forall₂ (fun o states => o = some (.ok states))
      (subs.mapIdx fun j => parseSubState E (parseStateFileRecurr E fuel) (call ++ [i + j]) state)
      (ts.map Tree.order) := by
  match subs, ts with
  | [], [] => exact .nil
  | sub :: subs, t :: ts =>
    obtain ⟨⟨subState, hread, hsub⟩, hrest⟩ := h
    rw [depthOf, Nat.max_le] at hfuel
    rw [List.mapIdx_cons, List.map_cons]
    refine .cons ?_ ?_
    · rw [Nat.add_zero, parseSubState, hread]
      exact parse_order hsub hfuel.1
    · simpa only [Nat.add_assoc, Nat.add_comm 1] using parse_orderOf hrest hfuel.2
  | [], _ :: _ => exact h.elim
  | _ :: _, [] => exact h.elim
end

mutual
theorem order_perm (t : Tree δ) : t.order.Perm t.states := by
  match t with
  | .node state subs =>
    rw [Tree.order, Tree.states]
    exact (List.reverse_perm _).trans ((orderOf_perm subs).cons state)

theorem orderOf_perm (ts : List (Tree δ)) : (orderOf ts).Perm (statesOf ts) := by
  match ts with
  | [] => exact .nil
  | t :: ts =>
    rw [orderOf, statesOf]
    exact (order_perm t).append (orderOf_perm ts)
end

/-! ## The states of a tree are told apart by their calls -/

theorem call_of_render {call : List ℕ} {state state' : StateRef δ} {args : Args}
    (h : renderState E call state args = .ok state') : state'.call = call := by
  unfold renderState at h
  cases hr : E.render call state args with
  | error e =>
    rw [hr] at h
    cases h
  | ok r =>
    rw [hr] at h
    exact (congrArg StateRef.call (Except.ok.inj h)).symm

mutual
theorem call_extends {call : List ℕ} {state : StateRef δ} {args : Args} {t : Tree δ} (h : Unfolds E call state args t) :
    (t.states.map (·.call)).Nodup ∧ ∀ s ∈ t.states, call <+: s.call := by
  match t with
  | .node state' subs =>
    obtain ⟨hrender, hsubs⟩ := h
    obtain ⟨hnodup, hcalls⟩ := call_extendsOf hsubs
    have hcall : state'.call = call := call_of_render hrender
    rw [Tree.states, List.map_cons, List.nodup_cons, hcall]
    refine ⟨⟨fun hmem => ?_, hnodup⟩, fun s hs => ?_⟩
    · obtain ⟨s, hs, heq⟩ := List.mem_map.1 hmem
      obtain ⟨j, -, hpre⟩ := hcalls s hs
      have hlen := hpre.length_le
      rw [heq, List.length_append] at hlen
      exact absurd hlen (Nat.not_succ_le_self _)
    · rcases List.mem_cons.1 hs with rfl | hs
      · rw [hcall]
      · obtain ⟨j, -, hpre⟩ := hcalls s hs
        exact (List.prefix_append call [j]).trans hpre

theorem call_extendsOf {call : List ℕ} {state : StateRef δ} {i : ℕ} {subs : List SubState} {ts : List (Tree δ)}
    (h : UnfoldsAll E call state i subs ts) :
    ((statesOf ts).map (·.call)).Nodup ∧ ∀ s ∈ statesOf ts, ∃ j, i ≤ j ∧ call ++ [j] <+: s.call := by
  match subs, ts with
  | [], [] => exact ⟨List.nodup_nil, fun s hs => absurd hs List.not_mem_nil⟩
  | sub :: subs, t :: ts =>
    obtain ⟨⟨subState, hread, hsub⟩, hrest⟩ := h
    obtain ⟨hnodup, hcalls⟩ := call_extends hsub
    obtain ⟨hnodups, hcallss⟩ := call_extendsOf hrest
    rw [statesOf, List.map_append, List.nodup_append]
    refine ⟨⟨hnodup, hnodups, fun c hc c' hc' heq => ?_⟩, fun s hs => ?_⟩
    · obtain ⟨s, hs, rfl⟩ := List.mem_map.1 hc
      obtain ⟨s', hs', rfl⟩ := List.mem_map.1 hc'
      obtain ⟨j, hj, hpre⟩ := hcallss s' hs'
      have hfirst := hcalls s hs
      rw [heq] at hfirst
      -- both `call ++ [i]` and `call ++ [j]` begin the call
      have hsame : call ++ [i] = call ++ [j] :=
        List.IsPrefix.eq_of_length ((List.prefix_of_prefix_length_le hfirst hpre (by simp))) (by simp)
      have hij : i = j := by simpa using hsame
      omega
    · rcases List.mem_append.1 hs with hs | hs
      · exact ⟨i, le_rfl, hcalls s hs⟩
      · obtain ⟨j, hj, hpre⟩ := hcallss s hs
        exact ⟨j, by omega, hpre⟩
  | [], _ :: _ => exact h.elim
  | _ :: _, [] => exact h.elim
end

/-! ## The order -/

/-- in a list without duplicates two elements stand in one order only -/
theorem not_sublist_swap {α : Type*} {l : List α} (hl : l.Nodup) {a b : α} (h : [a, b].Sublist l) : ¬ [b, a].Sublist l := by
  induction l with
  | nil => cases h
  | cons c l ih =>
    rw [List.nodup_cons] at hl
    intro h'
    cases h with
    | cons _ h =>
      cases h' with
      | cons _ h' => exact ih hl.2 h h'
      | cons_cons _ h' => exact hl.1 (h.subset (by simp))
    | cons_cons _ h =>
      cases h' with
      | cons _ h' => exact hl.1 (h'.subset (by simp))
      | cons_cons _ h' => exact hl.1 (h.subset (by simp))

theorem Tree.exists_mem : (t : Tree δ) → ∃ a, a ∈ t.states
  | .node state _ => ⟨state, by rw [Tree.states]; exact List.mem_cons_self⟩

theorem ordered_of_shallow {t : Tree δ} (h : t.Shallow) : Ordered t t.order := by
  refine ⟨order_perm t, fun a b hab => ?_⟩
  match t, h with
  | .node state [], _ =>
    cases hab with
    | included ha => cases ha
    | declared hsub => cases hsub
    | deeper ht => cases ht
  | .node state [.node sub []], _ =>
    cases hab with
    | included ha =>
      obtain rfl : a = sub := by simpa [statesOf, Tree.states] using ha
      simp [Tree.order, orderOf]
    | declared hsub => simpa using hsub.length_le
    | deeper ht hab =>
      obtain rfl := List.mem_singleton.1 ht
      cases hab with
      | included ha => cases ha
      | declared hsub => cases hsub
      | deeper ht => cases ht

theorem shallow_of_ordered {t : Tree δ} (hnodup : t.states.Nodup) (h : Ordered t t.order) : t.Shallow := by
  have horder : t.order.Nodup := (order_perm t).nodup_iff.2 hnodup
  match t with
  | .node state [] => trivial
  | .node state [.node sub []] => trivial
  | .node state [.node sub (t :: ts)] =>
    -- the state that `sub` includes stands after it
    obtain ⟨a, ha⟩ := t.exists_mem
    have hmem : a ∈ statesOf (t :: ts) := List.mem_append_left _ ha
    have hright := h.before a sub (.deeper (List.mem_singleton_self _) (.included hmem))
    refine absurd ?_ (not_sublist_swap horder hright)
    have hcons : [sub, a].Sublist (sub :: orderOf (t :: ts)) :=
      (List.singleton_sublist.2 ((orderOf_perm (t :: ts)).mem_iff.2 hmem)).cons_cons sub
    have heq : (Tree.node state [.node sub (t :: ts)]).order = sub :: orderOf (t :: ts) ++ [state] := by
      simp [Tree.order, orderOf]
    rw [heq]
    exact hcons.trans (List.sublist_append_left _ _)
  | .node state (t :: u :: ts) =>
    -- the first sub state stands after the second one
    obtain ⟨a, ha⟩ := t.exists_mem
    obtain ⟨b, hb⟩ := u.exists_mem
    have hright := h.before a b (.declared (((List.nil_sublist ts).cons_cons u).cons_cons t) ha hb)
    refine absurd ?_ (not_sublist_swap horder hright)
    have hab : [a, b].Sublist (orderOf (t :: u :: ts)) := by
      rw [orderOf, orderOf]
      refine (List.singleton_sublist.2 ((order_perm t).mem_iff.2 ha)).append ?_
      exact (List.singleton_sublist.2 ((order_perm u).mem_iff.2 hb)).trans (List.sublist_append_left _ _)
    rw [Tree.order]
    exact (hab.cons state).reverse

/-- **The states come in the order they are to be applied exactly if the include tree is shallow.** -/
theorem ordered_iff {call : List ℕ} {state : StateRef δ} {args : Args} {t : Tree δ} (h : Unfolds E call state args t) :
    (∃ fuel states, parseStateFileRecurr E fuel call state args = some (.ok states) ∧ Ordered t states) ↔ t.Shallow := by
  constructor
  · rintro ⟨fuel, states, hparse, hordered⟩
    obtain rfl := Except.ok.inj (parse_unique hparse (parse_order h le_rfl))
    exact shallow_of_ordered ((call_extends h).1.of_map _) hordered
  · intro hshallow
    exact ⟨t.depth, t.order, parse_order h le_rfl, ordered_of_shallow hshallow⟩

/-- a file as it is rendered by a call -/
def rendered (call : List ℕ) (path : Path) (includes : List String) : StateRef String :=
  ⟨"", including includes, .file path.dropLast, pathString path, call⟩

/-- an application that includes its database -/
def appFiles : List (Path × List String) := [(["srv", "app.yml"], ["./db.yml"]), (["srv", "db.yml"], [])]

theorem ordered_app :
    ∃ fuel states, parseStateFileRecurr (localEnv appFiles) fuel [] (rendered [] ["srv", "app.yml"] ["./db.yml"]) [] =
      some (.ok states) ∧ Ordered (.node (rendered [] ["srv", "app.yml"] ["./db.yml"])
        [.node (rendered [0] ["srv", "db.yml"] []) []]) states :=
  have hunfolds : Unfolds (localEnv appFiles) [] (rendered [] ["srv", "app.yml"] ["./db.yml"]) []
      (.node (rendered [] ["srv", "app.yml"] ["./db.yml"]) [.node (rendered [0] ["srv", "db.yml"] []) []]) :=
    ⟨rfl, ⟨rendered [] ["srv", "db.yml"] [], rfl, rfl, trivial⟩, trivial⟩
  (ordered_iff hunfolds).2 trivial

/-- an application that includes its database, which includes a volume -/
def volumeFiles : List (Path × List String) :=
  [(["srv", "app.yml"], ["./db.yml"]), (["srv", "db.yml"], ["./volume.yml"]), (["srv", "volume.yml"], [])]

/-- the volume is applied after the database -/
theorem included_late : ¬ ∀ (E : StateEnv String) (call : List ℕ) (state : StateRef String) (args : Args)
    (t : Tree String), Unfolds E call state args t →
      ∃ fuel states, parseStateFileRecurr E fuel call state args = some (.ok states) ∧ Ordered t states := by
  intro h
  have hunfolds : Unfolds (localEnv volumeFiles) [] (rendered [] ["srv", "app.yml"] ["./db.yml"]) []
      (.node (rendered [] ["srv", "app.yml"] ["./db.yml"]) [.node (rendered [0] ["srv", "db.yml"] ["./volume.yml"])
        [.node (rendered [0, 0] ["srv", "volume.yml"] []) []]]) :=
    ⟨rfl, ⟨rendered [] ["srv", "db.yml"] ["./volume.yml"], rfl, rfl,
      ⟨rendered [] ["srv", "volume.yml"] [], rfl, rfl, trivial⟩, trivial⟩, trivial⟩
  obtain ⟨fuel, states, hparse, hordered⟩ := h _ _ _ _ _ hunfolds
  obtain rfl := Except.ok.inj (parse_unique hparse (parse_order hunfolds le_rfl))
  exact shallow_of_ordered ((call_extends hunfolds).1.of_map _) hordered

end Nanocl.Cli
