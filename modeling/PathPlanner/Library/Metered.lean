import Mathlib.Algebra.Order.Monoid.Canonical.Defs
import Mathlib.Algebra.Order.Monoid.Defs
import Mathlib.Algebra.BigOperators.Group.List.Basic
import Mathlib.Data.List.Perm.Basic

/-!
# Metered computations

A computation that pays for its work from a budget, and stops when the budget does not cover a
payment. It is metered when, whenever it succeeds, it has paid an amount for a value that do not
depend on the budget: any other budget that covers the amount buys the same value. Metered
computations compose, and a list of them succeeds exactly when the budget covers the sum of what
they cost, so that their order does not matter.

## Main definitions

* `Meter`: a state that holds a budget
* `Meter.Costs`: a computation that pays an amount before it goes on
* `Meter.IsMetered`: a computation that succeeds at a fixed cost
* `Meter.AllGood`: computations one after the other, all successful

## Main results

* `Meter.IsMetered.bind`, `Meter.IsMetered.foldlM`, `Meter.IsMetered.of_fuel`: composition
* `Meter.IsMetered.mono`: a larger budget buys the same value
* `Meter.AllGood.perm`: **the order of metered computations does not matter**
-/

/-- A state of type `W` that holds a budget of type `U`. -/
structure Meter (W U : Type*) [AddCommMonoid U] [PartialOrder U] where
  remaining : W → U
  spend : U → W → W
  spend_zero (w : W) : spend 0 w = w
  spend_add (m n : U) (w : W) : spend (m + n) w = spend n (spend m w)
  remaining_spend (n : U) (w : W) (h : n ≤ remaining w) : n + remaining (spend n w) = remaining w

namespace Meter

variable {W U T T' α β γ ε S : Type*} [AddCommMonoid U] [PartialOrder U] (M : Meter W U)

/-! ## Costs -/

/-- The computation pays an amount and goes on as `rest`, wherever the budget covers the amount. -/
def Costs (f : W → T) (n : U) (rest : W → T) : Prop :=
  ∀ w, n ≤ M.remaining w → f w = rest (M.spend n w)

/-- Whenever the computation is good, it pays an amount that the budget covers, and returns a
value. -/
def IsMetered (good : T → Prop) (ret : α → W → T) (f : W → T) : Prop :=
  ∀ w, good (f w) → ∃ n a, n ≤ M.remaining w ∧ M.Costs f n (ret a)

/-- The computation has not failed. -/
def Succeeds (t : Except ε S) : Prop := ∃ s, t = .ok s

theorem not_succeeds_error {e : ε} : ¬ Succeeds (.error e : Except ε S) := by
  rintro ⟨s, h⟩
  cases h

/-- What a payment returns: the state that is left. -/
def paid (_ : Unit) (w : W) : Except W W := .ok w

variable {M} {good : T → Prop} {ret : α → W → T} {f : W → T} {w w' : W} {m n : U}

/-- A computation that pays nothing. -/
theorem IsMetered.pure [CanonicallyOrderedAdd U] (a : α) (hf : ∀ w, f w = ret a w) :
    M.IsMetered good ret f := by
  intro w _
  refine ⟨0, a, zero_le, fun v _ => ?_⟩
  rw [M.spend_zero, hf]

/-- A computation that never is good. -/
theorem IsMetered.of_not_good (hf : ∀ w, ¬ good (f w)) : M.IsMetered good ret f :=
  fun w hw => absurd hw (hf w)

/-- **A larger budget** buys the same value at the same cost. -/
theorem IsMetered.mono (hf : M.IsMetered good ret f) (hw : good (f w))
    (hle : M.remaining w ≤ M.remaining w') :
    ∃ n a, n ≤ M.remaining w ∧ f w = ret a (M.spend n w) ∧ f w' = ret a (M.spend n w') := by
  obtain ⟨n, a, hn, hcosts⟩ := hf w hw
  exact ⟨n, a, hn, hcosts w hn, hcosts w' (hn.trans hle)⟩

section Ordered

variable [IsOrderedCancelAddMonoid U] [CanonicallyOrderedAdd U]

/-- Two payments in a row are covered exactly when their sum is. -/
theorem add_le_remaining_iff :
    m + n ≤ M.remaining w ↔ m ≤ M.remaining w ∧ n ≤ M.remaining (M.spend m w) := by
  constructor
  · intro h
    have hm : m ≤ M.remaining w := le_self_add.trans h
    refine ⟨hm, ?_⟩
    rw [← M.remaining_spend m w hm] at h
    exact le_of_add_le_add_left h
  · rintro ⟨hm, hn⟩
    rw [← M.remaining_spend m w hm]
    exact add_le_add_right hn m

/-- **One computation after the other** is metered when both are. -/
theorem IsMetered.bind {good' : T' → Prop} {ret' : β → W → T'} {g : W → T'} {k : β → W → T}
    (hg : M.IsMetered good' ret' g) (hk : ∀ b, M.IsMetered good ret (k b))
    (hgood : ∀ w, good (f w) → good' (g w))
    (hf : ∀ w b v, g w = ret' b v → f w = k b v) : M.IsMetered good ret f := by
  intro w hw
  obtain ⟨m, b, hm, hcosts⟩ := hg w (hgood w hw)
  rw [hf w b _ (hcosts w hm)] at hw
  obtain ⟨n, a, hn, hrest⟩ := hk b _ hw
  refine ⟨m + n, a, add_le_remaining_iff.mpr ⟨hm, hn⟩, fun v hv => ?_⟩
  obtain ⟨hmv, hnv⟩ := add_le_remaining_iff.mp hv
  rw [hf v b _ (hcosts v hmv), hrest _ hnv, M.spend_add]

/-- A result that is a function of a metered one. -/
theorem IsMetered.map {good' : T' → Prop} {ret' : β → W → T'} {g : W → T'}
    (hg : M.IsMetered good' ret' g) (value : β → α) (hgood : ∀ w, good (f w) → good' (g w))
    (hf : ∀ w b v, g w = ret' b v → f w = ret (value b) v) : M.IsMetered good ret f :=
  hg.bind (k := fun b => ret (value b)) (fun b => .pure (value b) fun _ => rfl) hgood hf

omit [CanonicallyOrderedAdd U] in
/-- A computation that is cut off after a number of rounds that its budget cannot use up. -/
theorem IsMetered.of_fuel {f : ℕ → W → T} {g : W → T} {fuel : W → ℕ}
    (hf : ∀ rounds, M.IsMetered good ret (f rounds)) (hg : ∀ w, g w = f (fuel w) w)
    (hfuel : ∀ w rounds, fuel w ≤ rounds → f rounds w = f (fuel w) w)
    (hret : ∀ a b v v', ret a v = ret b v' → ret a = ret b ∧ M.remaining v = M.remaining v') :
    M.IsMetered good ret g := by
  intro w hw
  rw [hg] at hw
  obtain ⟨n, a, hn, hcosts⟩ := hf _ w hw
  refine ⟨n, a, hn, fun v hv => ?_⟩
  -- with rounds enough for both budgets, the payment and the value are the same
  have hrounds := hfuel w (max (fuel w) (fuel v)) (le_max_left _ _)
  have hw' := hw
  rw [← hrounds] at hw'
  obtain ⟨n', a', hn', hcosts'⟩ := hf _ w hw'
  have hsame := (hcosts w hn).symm.trans (hrounds.symm.trans (hcosts' w hn'))
  obtain ⟨hvalue, hrest⟩ := hret _ _ _ _ hsame
  have hpaid : n = n' := by
    have heq := (M.remaining_spend n w hn).trans (M.remaining_spend n' w hn').symm
    rw [hrest] at heq
    exact add_right_cancel heq
  rw [hg, ← hfuel v (max (fuel w) (fuel v)) (le_max_right _ _), hcosts' v (hpaid ▸ hv), ← hpaid,
    hvalue]

/-! ## Payments and loops -/

/-- **A payment**, and what follows it when it succeeds. -/
theorem IsMetered.afterPayment {pay : W → Except W W} {rest : W → T}
    (hpay : M.IsMetered Succeeds paid pay) (hok : ∀ w v, pay w = .ok v → f w = rest v)
    (herror : ∀ w v, pay w = .error v → ¬ good (f w)) (hrest : M.IsMetered good ret rest) :
    M.IsMetered good ret f := by
  refine hpay.bind (k := fun _ => rest) (fun _ => hrest) (fun w hgood => ?_) fun w _ v => hok w v
  cases h : pay w with
  | error v => exact absurd hgood (herror w v h)
  | ok v => exact ⟨v, rfl⟩

variable (M) in
/-- Steps on states that contain the meter: `put` puts it in. -/
def IsMeteredStep (put : W → S → S) (step : S → Except ε S) : Prop :=
  ∀ s, M.IsMetered Succeeds (fun s' v => .ok (put v s')) fun v => step (put v s)

/-- **A loop** of metered steps is metered. -/
theorem IsMeteredStep.foldlM {put : W → S → S} {step : S → γ → Except ε S} {xs : List γ}
    (h : ∀ x ∈ xs, M.IsMeteredStep put fun s => step s x) :
    M.IsMeteredStep put fun s => xs.foldlM step s := by
  induction xs with
  | nil => exact fun s => .pure s fun _ => rfl
  | cons x xs ih =>
    intro s
    obtain ⟨hx, hxs⟩ := List.forall_mem_cons.mp h
    refine (hx s).bind (k := fun s' v => xs.foldlM step (put v s')) (fun s' => ih hxs s') ?_ ?_
    · rintro v ⟨s', hs'⟩
      dsimp only at hs'
      rw [List.foldlM_cons] at hs'
      cases hstep : step (put v s) x with
      | error e =>
        rw [hstep] at hs'
        cases hs'
      | ok s₁ => exact ⟨s₁, hstep⟩
    · intro v s₁ v₁ hstep
      dsimp only at hstep ⊢
      rw [List.foldlM_cons, hstep]
      rfl

/-! ## Lists of computations -/

variable {jobs jobs' : List (W → T × W)}

/-- The computations are good, each from what the ones before it left. -/
def AllGood (good : T → Prop) : List (W → T × W) → W → Prop
  | [], _ => True
  | job :: jobs, w => good (job w).1 ∧ AllGood good jobs (job w).2

/-- **All are good** exactly when the budget covers what they cost together. -/
theorem allGood_iff
    (hjobs : ∀ job ∈ jobs, M.IsMetered (fun t : T × W => good t.1) Prod.mk job) :
    AllGood good jobs w ↔ ∃ bills : List (U × T),
      List.Forall₂ (fun job bill => good bill.2 ∧ M.Costs job bill.1 (Prod.mk bill.2)) jobs bills ∧
        (bills.map Prod.fst).sum ≤ M.remaining w := by
  induction jobs generalizing w with
  | nil => exact iff_of_true trivial ⟨[], List.Forall₂.nil, zero_le⟩
  | cons job jobs ih =>
    obtain ⟨hjob, hjobs⟩ := List.forall_mem_cons.mp hjobs
    constructor
    · rintro ⟨hgood, hrest⟩
      obtain ⟨n, a, hn, hcosts⟩ := hjob w hgood
      rw [hcosts w hn] at hgood hrest
      obtain ⟨bills, hbills, hsum⟩ := (ih hjobs).mp hrest
      refine ⟨(n, a) :: bills, .cons ⟨hgood, hcosts⟩ hbills, ?_⟩
      rw [List.map_cons, List.sum_cons]
      exact add_le_remaining_iff.mpr ⟨hn, hsum⟩
    · rintro ⟨bills, hbills, hsum⟩
      obtain ⟨bill, rest, ⟨hgood, hcosts⟩, hrest, rfl⟩ := List.forall₂_cons_left_iff.mp hbills
      rw [List.map_cons, List.sum_cons] at hsum
      obtain ⟨hn, hsum⟩ := add_le_remaining_iff.mp hsum
      rw [AllGood, hcosts w hn]
      exact ⟨hgood, (ih hjobs).mpr ⟨rest, hrest, hsum⟩⟩

/-- **The order does not matter.** -/
theorem AllGood.perm (hjobs : ∀ job ∈ jobs, M.IsMetered (fun t : T × W => good t.1) Prod.mk job)
    (hperm : jobs.Perm jobs') (h : AllGood good jobs w) : AllGood good jobs' w := by
  obtain ⟨bills, hbills, hsum⟩ := (allGood_iff hjobs).mp h
  obtain ⟨bills', hbills', hperm'⟩ := List.perm_comp_forall₂ hperm.symm hbills
  refine (allGood_iff fun job hjob => hjobs job (hperm.mem_iff.mpr hjob)).mpr
    ⟨bills', hbills', ?_⟩
  rwa [(hperm'.map Prod.fst).sum_eq]

end Ordered

end Meter
