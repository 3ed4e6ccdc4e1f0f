import Mathlib.Algebra.Order.Monoid.Prod
import PathPlanner.Library.Metered
import PathPlanner.Search.Yen

/-!
# Work budgets

Every search pays for its states, its pushes and its spur searches from one budget, and the whole
enumeration stops where the budget does not cover a payment. So what an enumeration returns, as long
as it does not report a limit, depends on the budget only through what it covers.

## Main definitions

* `workMeter`: the budget as a meter
* `PlanningView.reconfigured`: a view with other limits and another log

## Main results

* `shortestPath_isMetered`, `transitCombination_isMetered`, `spurSearch_isMetered`: the searches
* `enumerateCandidatePaths_isMetered`: **an enumeration** that is not limited has a fixed cost
-/

namespace PathPlanner

open Meter

/-! ## Amounts of work -/

/-- States, pushes and spur searches. -/
abbrev WorkAmount := ℕ × ℕ × ℕ

namespace Work

/-- What is left of the budget. -/
def remaining (work : Work) : WorkAmount :=
  (work.budget.statesRemaining, work.budget.pushesRemaining, work.budget.spurRemaining)

/-- The budget and the statistics after an amount is spent. -/
def spend (amount : WorkAmount) (work : Work) : Work where
  budget := { work.budget with
    statesRemaining := work.budget.statesRemaining - amount.1
    pushesRemaining := work.budget.pushesRemaining - amount.2.1
    spurRemaining := work.budget.spurRemaining - amount.2.2 }
  stats := { work.stats with
    statesExpanded := work.stats.statesExpanded + amount.1
    queuePushes := work.stats.queuePushes + amount.2.1
    spurSearches := work.stats.spurSearches + amount.2.2 }

end Work

/-- The budget as a meter. -/
def workMeter : Meter Work WorkAmount where
  remaining := Work.remaining
  spend := Work.spend
  spend_zero _ := rfl
  spend_add m n w := by
    simp only [Work.spend, Prod.fst_add, Prod.snd_add, Nat.sub_sub, Nat.add_assoc]
  remaining_spend n w h := by
    obtain ⟨hstates, hpushes, hspurs⟩ := h
    exact Prod.ext (Nat.add_sub_cancel' hstates)
      (Prod.ext (Nat.add_sub_cancel' hpushes) (Nat.add_sub_cancel' hspurs))

namespace Work

theorem spendState_isMetered : workMeter.IsMetered Succeeds paid Work.spendState := by
  rintro work ⟨work', h⟩
  refine ⟨(1, 0, 0), (), ?_, fun v hv => ?_⟩
  · unfold spendState at h
    split_ifs at h with hzero
    exact ⟨Nat.one_le_iff_ne_zero.mpr hzero, Nat.zero_le _, Nat.zero_le _⟩
  · exact if_neg (Nat.one_le_iff_ne_zero.mp hv.1)

theorem spendPush_isMetered : workMeter.IsMetered Succeeds paid Work.spendPush := by
  rintro work ⟨work', h⟩
  refine ⟨(0, 1, 0), (), ?_, fun v hv => ?_⟩
  · unfold spendPush at h
    split_ifs at h with hzero
    exact ⟨Nat.zero_le _, Nat.one_le_iff_ne_zero.mpr hzero, Nat.zero_le _⟩
  · exact if_neg (Nat.one_le_iff_ne_zero.mp hv.2.1)

theorem spendSpur_isMetered : workMeter.IsMetered Succeeds paid Work.spendSpur := by
  rintro work ⟨work', h⟩
  refine ⟨(0, 0, 1), (), ?_, fun v hv => ?_⟩
  · unfold spendSpur at h
    split_ifs at h with hzero
    exact ⟨Nat.zero_le _, Nat.zero_le _, Nat.one_le_iff_ne_zero.mpr hzero⟩
  · exact if_neg (Nat.one_le_iff_ne_zero.mp hv.2.2)

/-- A state and a push are paid, one after the other. -/
def spendStateAndPush (work : Work) : Except Work Work :=
  match work.spendState with
  | .error work => .error work
  | .ok work => work.spendPush

variable {work work' : Work}

theorem spendStateAndPush_eq_ok (h : work.spendStateAndPush = .ok work') :
    ∃ mid, work.spendState = .ok mid ∧ mid.spendPush = .ok work' := by
  unfold spendStateAndPush at h
  split at h
  · cases h
  · exact ⟨_, ‹_›, h⟩

theorem spendStateAndPush_eq_error (h : work.spendStateAndPush = .error work') :
    work.spendState = .error work' ∨
      ∃ mid, work.spendState = .ok mid ∧ mid.spendPush = .error work' := by
  unfold spendStateAndPush at h
  split at h
  · next hstate => exact Or.inl (hstate.trans h)
  · exact Or.inr ⟨_, ‹_›, h⟩

theorem spendStateAndPush_isMetered :
    workMeter.IsMetered Succeeds paid Work.spendStateAndPush := by
  refine spendState_isMetered.afterPayment (fun w v h => ?_) (fun w v h => ?_) spendPush_isMetered
  · rw [spendStateAndPush, h]
  · rw [spendStateAndPush, h]
    exact not_succeeds_error

end Work

/-- A fold keeps a measure that its steps keep. -/
theorem measure_of_foldlM {ε σ β : Type} {f : σ → β → Except ε σ} {μ : σ → ℕ} {xs : List β}
    {s s' : σ} (hstep : ∀ s x s', f s x = .ok s' → μ s' = μ s) (h : xs.foldlM f s = .ok s') :
    μ s' = μ s := by
  induction xs generalizing s with
  | nil => rw [← Except.ok.inj h]
  | cons x xs ih =>
    rw [List.foldlM_cons] at h
    cases hx : f s x with
    | error e =>
      rw [hx] at h
      cases h
    | ok mid =>
      rw [hx] at h
      exact (ih h).trans (hstep s x mid hx)

/-! ## Searches by a loop -/

/-- The search is not cut off. -/
def IsUnlimited (t : SearchOutcome × Work) : Prop := t.1.resourceLimit = false

/-- A search that pays for its start, runs a loop on its state and reads the outcome off the end. -/
structure LoopSearch (S : Type) where
  put : Work → S → S
  loop : ℕ → S → Except S S
  start : S
  finish : S → SearchOutcome
  work : S → Work
  costOverflow : S → Bool

namespace LoopSearch

variable {S : Type} (s : LoopSearch S)

/-- What the search makes of the end of its loop. -/
def outcome : Except S S → SearchOutcome × Work
  | .error st => ({ resourceLimit := true, costOverflow := s.costOverflow st }, s.work st)
  | .ok st => (s.finish st, s.work st)

/-- The search with a number of rounds of its own. -/
def rounds (n : ℕ) (work : Work) : SearchOutcome × Work :=
  match work.spendPush with
  | .error work => ({ resourceLimit := true }, work)
  | .ok work => s.outcome (s.loop n (s.put work s.start))

/-- The search, with a round for every push that is left. -/
def run (work : Work) : SearchOutcome × Work :=
  match work.spendPush with
  | .error work => ({ resourceLimit := true }, work)
  | .ok work => s.outcome (s.loop (work.budget.pushesRemaining + 1) (s.put work s.start))

theorem run_eq_rounds (work : Work) : s.run work = s.rounds work.budget.pushesRemaining work := by
  unfold run rounds
  cases hpush : work.spendPush with
  | error work' => rfl
  | ok work' => rw [← Work.pushes_of_spendPush hpush]

variable {s}

theorem rounds_isMetered (hloop : ∀ n, workMeter.IsMeteredStep s.put (s.loop n))
    (hfinish : ∀ work st, s.finish (s.put work st) = s.finish st)
    (hwork : ∀ work st, s.work (s.put work st) = work) (n : ℕ) :
    workMeter.IsMetered IsUnlimited Prod.mk (s.rounds n) := by
  have hrest : workMeter.IsMetered IsUnlimited Prod.mk fun work =>
      s.outcome (s.loop n (s.put work s.start)) := by
    refine (hloop n s.start).map s.finish (fun w hgood => ?_) fun w st v h => ?_
    · cases hend : s.loop n (s.put w s.start) with
      | error st =>
        rw [hend] at hgood
        cases hgood
      | ok st => exact ⟨st, rfl⟩
    · rw [h, outcome, hfinish, hwork]
  refine Work.spendPush_isMetered.afterPayment (fun w v h => ?_) (fun w v h => ?_) hrest
  · rw [rounds, h]
  · rw [rounds, h]
    exact Bool.noConfusion

/-- **A search by a loop** is metered when the loop is, and more rounds than pushes change nothing. -/
theorem run_isMetered (hloop : ∀ n, workMeter.IsMeteredStep s.put (s.loop n))
    (hfinish : ∀ work st, s.finish (s.put work st) = s.finish st)
    (hwork : ∀ work st, s.work (s.put work st) = work)
    (hfuel : ∀ (work : Work) (n : ℕ), work.budget.pushesRemaining + 1 ≤ n →
      s.loop n (s.put work s.start) =
        s.loop (work.budget.pushesRemaining + 1) (s.put work s.start)) :
    workMeter.IsMetered IsUnlimited Prod.mk s.run := by
  refine .of_fuel (rounds_isMetered hloop hfinish hwork) s.run_eq_rounds (fun w n hle => ?_)
    fun a b v v' h => ?_
  · unfold rounds
    cases hpush : w.spendPush with
    | error w' => rfl
    | ok w' =>
      have hpushes := Work.pushes_of_spendPush hpush
      dsimp only
      rw [← hpushes] at hle ⊢
      rw [hfuel w' n hle]
  · obtain ⟨rfl, rfl⟩ := Prod.mk.inj h
    exact ⟨rfl, rfl⟩

end LoopSearch

/-! ## The search over nodes -/

section Plain

variable {view : PlanningView} {hopBudget : ℕ} {bans : BanSet} {entry : QueueEntry} {k : ℕ}

/-- A state with other work. -/
def PlainState.withWork (work : Work) (st : PlainState) : PlainState := { st with work }

theorem plainRelax_isMetered : workMeter.IsMeteredStep PlainState.withWork fun st =>
    plainRelax view hopBudget bans entry st k := by
  intro st
  unfold plainRelax
  dsimp only [PlainState.withWork]
  -- the tests before the first payment do not look at the work
  split_ifs
  · exact .pure st fun _ => rfl
  · exact .pure st fun _ => rfl
  · exact .pure st fun _ => rfl
  cases view.hopIncrement (view.adjacencyAt k) with
  | none => exact .pure { st with costOverflow := true } fun _ => rfl
  | some increment =>
    dsimp only
    cases checkedAdd entry.cost increment with
    | none => exact .pure { st with costOverflow := true } fun _ => rfl
    | some nextCost =>
      dsimp only
      by_cases hbetter : betterLabel nextCost (st.hops entry.state + 1)
        (st.dist (view.adjacencyAt k).target) (st.hops (view.adjacencyAt k).target) = true
      · simp only [hbetter, Bool.not_true, Bool.false_eq_true, if_false]
        refine Work.spendStateAndPush_isMetered.afterPayment (fun w v h => ?_) (fun w v h => ?_)
          (.pure { st with
            dist := Function.update st.dist (view.adjacencyAt k).target nextCost
            hops := Function.update st.hops (view.adjacencyAt k).target (st.hops entry.state + 1)
            queue := st.queue.push ⟨nextCost, st.hops entry.state + 1,
              (view.adjacencyAt k).target⟩ } fun w => rfl)
        · obtain ⟨mid, hstate, hpush⟩ := Work.spendStateAndPush_eq_ok h
          rw [hstate]
          dsimp only
          rw [hpush]
        · rcases Work.spendStateAndPush_eq_error h with hstate | ⟨mid, hstate, hpush⟩
          · rw [hstate]
            exact not_succeeds_error
          · rw [hstate]
            dsimp only
            rw [hpush]
            exact not_succeeds_error
      · simp only [hbetter, Bool.not_false, if_true]
        refine Work.spendState_isMetered.afterPayment (fun w v h => ?_) (fun w v h => ?_)
          (.pure st fun w => rfl)
        · rw [h]
        · rw [h]
          exact not_succeeds_error

variable (view hopBudget bans entry) in
theorem plainScan_isMetered (ks : List ℕ) : workMeter.IsMeteredStep PlainState.withWork fun st =>
    ks.foldlM (plainRelax view hopBudget bans entry) st :=
  IsMeteredStep.foldlM fun _ _ => plainRelax_isMetered

theorem plainLoop_isMetered (fuel : ℕ) : workMeter.IsMeteredStep PlainState.withWork
    (plainLoop view hopBudget bans fuel) := by
  induction fuel with
  | zero => exact fun st => .pure st fun _ => rfl
  | succ fuel ih =>
    intro st
    unfold plainLoop
    dsimp only [PlainState.withWork]
    cases st.queue.pop with
    | none => exact .pure st fun _ => rfl
    | some popped =>
      dsimp only
      split_ifs
      · exact ih { st with queue := popped.2 }
      · exact ih { st with queue := popped.2 }
      · refine (plainScan_isMetered view hopBudget bans popped.1
          (view.adjacencyRange popped.1.state) { st with
            queue := popped.2
            settled := Function.update st.settled popped.1.state true }).bind ih
              (fun w hgood => ?_) fun w st' v h => ?_
        · split at hgood
          · exact absurd hgood not_succeeds_error
          · exact ⟨_, ‹_›⟩
        · dsimp only [PlainState.withWork] at h
          rw [h]
          rfl

/-- One iteration pays for what it pushes. -/
theorem remaining_of_plainRelax {st st' : PlainState}
    (h : plainRelax view hopBudget bans entry st k = .ok st') :
    Plain.remaining st' = Plain.remaining st := by
  unfold plainRelax at h
  dsimp only at h
  split_ifs at h
  · rw [← Except.ok.inj h]
  · rw [← Except.ok.inj h]
  · rw [← Except.ok.inj h]
  split at h
  · rw [← Except.ok.inj h]
    rfl
  split at h
  · rw [← Except.ok.inj h]
    rfl
  split at h
  · cases h
  · next work hstate =>
    have hpushes := Work.pushes_of_spendState hstate
    split_ifs at h
    · rw [← Except.ok.inj h, Plain.remaining, Plain.remaining, hpushes]
    · split at h
      · cases h
      · next work' hpush =>
        have hspent := Work.pushes_of_spendPush hpush
        rw [← Except.ok.inj h, Plain.remaining, Plain.remaining, PriorityQueue.size_push]
        dsimp only
        omega

/-- The loop ends with an empty queue once it has a round for every entry it may meet. -/
theorem plainLoop_fuel {fuel fuel' : ℕ} {st : PlainState} (h : Plain.remaining st ≤ fuel)
    (hle : fuel ≤ fuel') :
    plainLoop view hopBudget bans fuel' st = plainLoop view hopBudget bans fuel st := by
  induction fuel generalizing fuel' st with
  | zero =>
    have hempty : st.queue.pop = none := by
      refine PriorityQueue.pop_eq_none_iff.mpr (List.length_eq_zero_iff.mp ?_)
      change st.queue.size = 0
      unfold Plain.remaining at h
      omega
    cases fuel' with
    | zero => rfl
    | succ fuel' =>
      rw [plainLoop, plainLoop, hempty]
  | succ fuel ih =>
    obtain ⟨fuel', rfl⟩ := Nat.exists_eq_add_of_le' (Nat.one_le_iff_ne_zero.mpr
      (Nat.ne_zero_of_lt hle))
    rw [plainLoop, plainLoop]
    cases hpop : st.queue.pop with
    | none => rfl
    | some popped =>
      have hsize := PriorityQueue.size_of_pop hpop
      have hrest : popped.2.size + st.work.budget.pushesRemaining ≤ fuel := by
        unfold Plain.remaining at h
        omega
      have hfuel : fuel ≤ fuel' := by omega
      dsimp only
      split_ifs
      · exact ih hrest hfuel
      · exact ih hrest hfuel
      · split
        · rfl
        · next st' hscan =>
          refine ih ?_ hfuel
          rw [measure_of_foldlM (fun _ _ _ => remaining_of_plainRelax) hscan]
          exact hrest

variable (view hopBudget bans) in
/-- `PlainSearch` as a search by a loop. -/
def plainLoopSearch (source dest : ℕ) : LoopSearch PlainState where
  put := PlainState.withWork
  loop := plainLoop view hopBudget bans
  start := plainStart source ⟨{}, {}⟩
  finish := plainReconstruct view bans source dest
  work := PlainState.work
  costOverflow := PlainState.costOverflow

theorem plainSearch_eq (source dest : ℕ) : plainSearch view hopBudget bans source dest =
    (plainLoopSearch view hopBudget bans source dest).run := by
  funext work
  unfold plainSearch LoopSearch.run
  cases work.spendPush with
  | error work => rfl
  | ok work =>
    change _ = LoopSearch.outcome _ (plainLoop view hopBudget bans _ (plainStart source work))
    dsimp only [plainStart]
    cases plainLoop view hopBudget bans (work.budget.pushesRemaining + 1) _ <;> rfl

/-- **The search over nodes** is metered. -/
theorem plainSearch_isMetered (source dest : ℕ) : workMeter.IsMetered IsUnlimited Prod.mk
    (plainSearch view hopBudget bans source dest) := by
  rw [plainSearch_eq]
  refine LoopSearch.run_isMetered plainLoop_isMetered (fun _ _ => rfl) (fun _ _ => rfl)
    fun work rounds hle => plainLoop_fuel ?_ hle
  change 1 + work.budget.pushesRemaining ≤ _
  omega

end Plain

/-! ## The search over hop counts and nodes -/

section Expanded

variable {view : PlanningView} {hopBudget : ℕ} {bans : BanSet} {entry : QueueEntry} {k : ℕ}

/-- A state with other work. -/
def ExpandedState.withWork (work : Work) (st : ExpandedState) : ExpandedState := { st with work }

theorem expandedRelax_isMetered : workMeter.IsMeteredStep ExpandedState.withWork fun st =>
    expandedRelax view bans entry st k := by
  intro st
  unfold expandedRelax
  dsimp only [ExpandedState.withWork]
  split_ifs
  · exact .pure st fun _ => rfl
  · exact .pure st fun _ => rfl
  cases view.hopIncrement (view.adjacencyAt k) with
  | none => exact .pure { st with costOverflow := true } fun _ => rfl
  | some increment =>
    dsimp only
    cases checkedAdd entry.cost increment with
    | none => exact .pure { st with costOverflow := true } fun _ => rfl
    | some nextCost =>
      dsimp only
      by_cases hbetter : st.dist (entry.hops + 1, (view.adjacencyAt k).target) ≤ nextCost
      · simp only [hbetter, if_true]
        refine Work.spendState_isMetered.afterPayment (fun w v h => ?_) (fun w v h => ?_)
          (.pure st fun w => rfl)
        · rw [h]
        · rw [h]
          exact not_succeeds_error
      · simp only [hbetter, if_false]
        refine Work.spendStateAndPush_isMetered.afterPayment (fun w v h => ?_) (fun w v h => ?_)
          (.pure { st with
            dist := Function.update st.dist (entry.hops + 1, (view.adjacencyAt k).target) nextCost
            queue := st.queue.push ⟨nextCost, entry.hops + 1, (view.adjacencyAt k).target⟩ }
            fun w => rfl)
        · obtain ⟨mid, hstate, hpush⟩ := Work.spendStateAndPush_eq_ok h
          rw [hstate]
          dsimp only
          rw [hpush]
        · rcases Work.spendStateAndPush_eq_error h with hstate | ⟨mid, hstate, hpush⟩
          · rw [hstate]
            exact not_succeeds_error
          · rw [hstate]
            dsimp only
            rw [hpush]
            exact not_succeeds_error

variable (view bans entry) in
theorem expandedScan_isMetered (ks : List ℕ) :
    workMeter.IsMeteredStep ExpandedState.withWork fun st =>
      ks.foldlM (expandedRelax view bans entry) st :=
  IsMeteredStep.foldlM fun _ _ => expandedRelax_isMetered

theorem expandedLoop_isMetered (fuel : ℕ) : workMeter.IsMeteredStep ExpandedState.withWork
    (expandedLoop view hopBudget bans fuel) := by
  induction fuel with
  | zero => exact fun st => .pure st fun _ => rfl
  | succ fuel ih =>
    intro st
    unfold expandedLoop
    dsimp only [ExpandedState.withWork]
    cases st.queue.pop with
    | none => exact .pure st fun _ => rfl
    | some popped =>
      dsimp only
      split_ifs
      · exact ih { st with queue := popped.2 }
      · exact ih { st with queue := popped.2 }
      · exact ih { st with
          queue := popped.2
          settled := Function.update st.settled (popped.1.hops, popped.1.state) true }
      · refine (expandedScan_isMetered view bans popped.1
          (view.adjacencyRange popped.1.state) { st with
            queue := popped.2
            settled := Function.update st.settled (popped.1.hops, popped.1.state) true }).bind ih
              (fun w hgood => ?_) fun w st' v h => ?_
        · split at hgood
          · exact absurd hgood not_succeeds_error
          · exact ⟨_, ‹_›⟩
        · dsimp only [ExpandedState.withWork] at h
          rw [h]
          rfl

/-- One iteration pays for what it pushes. -/
theorem remaining_of_expandedRelax {st st' : ExpandedState}
    (h : expandedRelax view bans entry st k = .ok st') :
    Expanded.remaining st' = Expanded.remaining st := by
  unfold expandedRelax at h
  dsimp only at h
  split_ifs at h
  · rw [← Except.ok.inj h]
  · rw [← Except.ok.inj h]
  split at h
  · rw [← Except.ok.inj h]
    rfl
  split at h
  · rw [← Except.ok.inj h]
    rfl
  split at h
  · cases h
  · next work hstate =>
    have hpushes := Work.pushes_of_spendState hstate
    split_ifs at h
    · rw [← Except.ok.inj h, Expanded.remaining, Expanded.remaining, hpushes]
    · split at h
      · cases h
      · next work' hpush =>
        have hspent := Work.pushes_of_spendPush hpush
        rw [← Except.ok.inj h, Expanded.remaining, Expanded.remaining, PriorityQueue.size_push]
        dsimp only
        omega

/-- The loop ends with an empty queue once it has a round for every entry it may meet. -/
theorem expandedLoop_fuel {fuel fuel' : ℕ} {st : ExpandedState} (h : Expanded.remaining st ≤ fuel)
    (hle : fuel ≤ fuel') :
    expandedLoop view hopBudget bans fuel' st = expandedLoop view hopBudget bans fuel st := by
  induction fuel generalizing fuel' st with
  | zero =>
    have hempty : st.queue.pop = none := by
      refine PriorityQueue.pop_eq_none_iff.mpr (List.length_eq_zero_iff.mp ?_)
      change st.queue.size = 0
      unfold Expanded.remaining at h
      omega
    cases fuel' with
    | zero => rfl
    | succ fuel' =>
      rw [expandedLoop, expandedLoop, hempty]
  | succ fuel ih =>
    obtain ⟨fuel', rfl⟩ := Nat.exists_eq_add_of_le' (Nat.one_le_iff_ne_zero.mpr
      (Nat.ne_zero_of_lt hle))
    rw [expandedLoop, expandedLoop]
    cases hpop : st.queue.pop with
    | none => rfl
    | some popped =>
      have hsize := PriorityQueue.size_of_pop hpop
      have hrest : popped.2.size + st.work.budget.pushesRemaining ≤ fuel := by
        unfold Expanded.remaining at h
        omega
      have hfuel : fuel ≤ fuel' := by omega
      dsimp only
      split_ifs
      · exact ih hrest hfuel
      · exact ih hrest hfuel
      · exact ih hrest hfuel
      · split
        · rfl
        · next st' hscan =>
          refine ih ?_ hfuel
          rw [measure_of_foldlM (fun _ _ _ => remaining_of_expandedRelax) hscan]
          exact hrest

variable (view hopBudget bans) in
/-- `ExpandedSearch` behind its bound on the states, as a search by a loop. -/
def expandedLoopSearch (source dest : ℕ) : LoopSearch ExpandedState where
  put := ExpandedState.withWork
  loop := expandedLoop view hopBudget bans
  start := expandedStart source ⟨{}, {}⟩
  finish := expandedReconstruct view hopBudget bans source dest
  work := ExpandedState.work
  costOverflow := ExpandedState.costOverflow

theorem expandedSearch_eq {source dest : ℕ}
    (h : ¬ (hopBudget + 1) * view.nodeCount > view.limits.maxSearchStates.toNat) :
    expandedSearch view hopBudget bans source dest =
      (expandedLoopSearch view hopBudget bans source dest).run := by
  funext work
  unfold expandedSearch LoopSearch.run
  rw [if_neg h]
  cases work.spendPush with
  | error work => rfl
  | ok work =>
    change _ = LoopSearch.outcome _ (expandedLoop view hopBudget bans _ (expandedStart source work))
    dsimp only [expandedStart]
    cases expandedLoop view hopBudget bans (work.budget.pushesRemaining + 1) _ <;> rfl

/-- **The search over hop counts and nodes** is metered. -/
theorem expandedSearch_isMetered (source dest : ℕ) : workMeter.IsMetered IsUnlimited Prod.mk
    (expandedSearch view hopBudget bans source dest) := by
  by_cases h : (hopBudget + 1) * view.nodeCount > view.limits.maxSearchStates.toNat
  · refine .of_not_good fun work => ?_
    rw [expandedSearch, if_pos h]
    exact Bool.noConfusion
  · rw [expandedSearch_eq h]
    refine LoopSearch.run_isMetered expandedLoop_isMetered (fun _ _ => rfl) (fun _ _ => rfl)
      fun work rounds hle => expandedLoop_fuel ?_ hle
    change 1 + work.budget.pushesRemaining ≤ _
    omega

end Expanded

/-! ## Enumeration -/

section Enumeration

variable {view : PlanningView} {hopBudget : ℕ} {bans : BanSet} {source dest : ℕ}

variable (view hopBudget bans source dest) in
/-- **Shortest paths** are metered. -/
theorem shortestPath_isMetered : workMeter.IsMetered IsUnlimited Prod.mk
    (shortestPath view hopBudget bans source dest) := by
  unfold shortestPath
  dsimp only
  -- the choice between the searches does not look at the work
  split_ifs
  · exact .pure { found := true, path := ⟨[source], []⟩ } fun _ => rfl
  · exact .pure {} fun _ => rfl
  · exact .pure {} fun _ => rfl
  · exact plainSearch_isMetered source dest
  · exact expandedSearch_isMetered source dest
  · exact plainSearch_isMetered source dest
  · exact expandedSearch_isMetered source dest
  · exact plainSearch_isMetered source dest

/-! ### Required transit -/

/-- The legs are not cut off. -/
def IsUncut {α : Type} (t : LegOutcome α × Work) : Prop := ∀ detail, t.1 ≠ .exhausted detail

variable (view) (options : EnumerationOptions)

/-- What a leg to a stage makes of its search. -/
def stageLegEnd (stage : TransitStage) (progress : TransitProgress) (target : ℕ)
    (leg : SearchOutcome) : LegOutcome TransitProgress :=
  if leg.resourceLimit then .exhausted "work budget exhausted during a required transit leg"
  else if !leg.found then
    .failed (some (if stage.kind = .exact then .requiredNodeMissing
      else .requiredAnySetUnsatisfied))
  else .reached (progress.extend leg.path target)

theorem transitLeg_isMetered (stage : TransitStage) (alternative : NodeId)
    (progress : TransitProgress) : workMeter.IsMetered IsUncut Prod.mk
      (transitLeg view options stage alternative progress) := by
  unfold transitLeg
  cases view.viewIndex alternative with
  | none => exact .pure (.failed (some .requiredNodeMissing)) fun _ => rfl
  | some target =>
    dsimp only
    by_cases hused : options.hopsUsedUp progress.usedHops = true
    · simp only [hused, if_true]
      exact .pure (.failed (some .maxHopsExceeded)) fun _ => rfl
    · simp only [hused, Bool.false_eq_true, if_false]
      refine (shortestPath_isMetered view (options.remainingHops progress.usedHops)
        (progress.bans fun node => node = progress.current) progress.current target).map
          (stageLegEnd stage progress target) (fun w hgood => ?_) fun w leg v h => ?_
      · rw [IsUnlimited, ← Bool.not_eq_true]
        intro hlimit
        rw [if_pos hlimit] at hgood
        exact hgood _ rfl
      · rw [h, stageLegEnd]
        split_ifs <;> rfl

/-- What follows a leg. -/
def afterLeg (stages : List (TransitStage × NodeId)) :
    LegOutcome TransitProgress → Work → LegOutcome TransitProgress × Work
  | .reached progress, work => transitLegs view options stages progress work
  | .failed code, work => (.failed code, work)
  | .exhausted detail, work => (.exhausted detail, work)

theorem transitLegs_isMetered (stages : List (TransitStage × NodeId)) (progress : TransitProgress) :
    workMeter.IsMetered IsUncut Prod.mk (transitLegs view options stages progress) := by
  induction stages generalizing progress with
  | nil => exact .pure (.reached progress) fun _ => rfl
  | cons entry stages ih =>
    obtain ⟨stage, alternative⟩ := entry
    refine (transitLeg_isMetered view options stage alternative progress).bind
      (k := afterLeg view options stages) (fun leg => ?_) (fun w hgood => ?_) fun w leg v h => ?_
    · cases leg with
      | reached progress => exact ih progress
      | failed code => exact .pure (.failed code) fun _ => rfl
      | exhausted detail => exact .pure (.exhausted detail) fun _ => rfl
    · intro detail hend
      rw [transitLegs] at hgood
      cases h : transitLeg view options stage alternative progress w with
      | mk leg v =>
        rw [h] at hend hgood
        obtain rfl : leg = _ := hend
        exact hgood detail rfl
    · rw [transitLegs, h]
      cases leg <;> rfl

/-- What the final leg makes of its search. -/
def finalLegEnd (view : PlanningView) (options : EnumerationOptions) (progress : TransitProgress)
    (leg : SearchOutcome) : LegOutcome RankedRawPath :=
  if leg.resourceLimit then .exhausted "work budget exhausted during the final transit leg"
  else if !leg.found then .failed (some .maxHopsExceeded)
  else
    let combined := (progress.extend leg.path options.destinationView).combined
    if !rawPathIsSimple combined then .failed none
    else
      match view.computeRawPathCost combined with
      | none => .failed (some .costOverflow)
      | some cost => .reached ⟨combined, cost⟩

theorem finalLeg_isMetered (progress : TransitProgress) :
    workMeter.IsMetered IsUncut Prod.mk (finalLeg view options progress) := by
  unfold finalLeg
  dsimp only
  by_cases hused : (options.hopsUsedUp progress.usedHops &&
      progress.current ≠ options.destinationView) = true
  · simp only [if_pos hused]
    exact .pure (.failed (some .maxHopsExceeded)) fun _ => rfl
  · simp only [if_neg hused]
    refine (shortestPath_isMetered view (options.remainingHops progress.usedHops)
      (progress.bans fun node => node = progress.current || node = options.destinationView)
        progress.current options.destinationView).map
        (finalLegEnd view options progress) (fun w hgood => ?_) fun w leg v h => ?_
    · rw [IsUnlimited, ← Bool.not_eq_true]
      intro hlimit
      rw [if_pos hlimit] at hgood
      exact hgood _ rfl
    · rw [h, finalLegEnd]
      dsimp only
      split_ifs
      · rfl
      · rfl
      · rfl
      · cases view.computeRawPathCost _ <;> rfl

/-- What follows the legs to the stages. -/
def afterLegs : LegOutcome TransitProgress → Work → LegOutcome RankedRawPath × Work
  | .reached progress, work => finalLeg view options progress work
  | .failed legFailure, work => (.failed legFailure, work)
  | .exhausted detail, work => (.exhausted detail, work)

/-- **A combination** is metered. -/
theorem transitCombination_isMetered (stages : List (TransitStage × NodeId)) :
    workMeter.IsMetered IsUncut Prod.mk (transitCombination view options stages) := by
  refine (transitLegs_isMetered view options stages (.start options.sourceView)).bind
    (k := afterLegs view options) (fun legs => ?_) (fun w hgood => ?_) fun w legs v h => ?_
  · cases legs with
    | reached progress => exact finalLeg_isMetered view options progress
    | failed code => exact .pure (.failed code) fun _ => rfl
    | exhausted detail => exact .pure (.exhausted detail) fun _ => rfl
  · intro detail hend
    rw [transitCombination] at hgood
    cases h : transitLegs view options stages (.start options.sourceView) w with
    | mk legs v =>
      rw [h] at hend hgood
      obtain rfl : legs = _ := hend
      exact hgood detail rfl
  · rw [transitCombination, h]
    cases legs <;> rfl

/-- The enumeration is not limited. -/
def IsDecisive (t : EnumerationResult × Work) : Prop := t.1.resourceLimit = false

/-- What follows a combination. -/
def afterCombination (stages : List TransitStage) (combinations : List ℕ)
    (best : Option RankedRawPath) (legFailure : DiagnosticCode) :
    LegOutcome RankedRawPath → Work → EnumerationResult × Work
  | .reached ranked, work => transitLoop view options stages combinations
      (some (betterRanked view ranked best)) legFailure work
  | .failed code, work =>
    transitLoop view options stages combinations best (code.getD legFailure) work
  | .exhausted detail, work =>
    ({ resourceLimit := true, failure := .workBudgetExhausted, detail := detail }, work)

theorem transitLoop_isMetered (stages : List TransitStage) (combinations : List ℕ)
    (best : Option RankedRawPath) (legFailure : DiagnosticCode) :
    workMeter.IsMetered IsDecisive Prod.mk
      (transitLoop view options stages combinations best legFailure) := by
  induction combinations generalizing best legFailure with
  | nil => exact .pure (transitResult best legFailure) fun _ => rfl
  | cons combination combinations ih =>
    refine (transitCombination_isMetered view options
      (stages.zip (transitSelection stages combination).1)).bind
      (k := afterCombination view options stages combinations best legFailure)
      (fun outcome => ?_) (fun w hgood => ?_) fun w outcome v h => ?_
    · cases outcome with
      | reached ranked => exact ih _ _
      | failed code => exact ih _ _
      | exhausted detail => exact .of_not_good fun _ => Bool.noConfusion
    · intro detail hend
      rw [transitLoop] at hgood
      cases h : transitCombination view options
          (stages.zip (transitSelection stages combination).1) w with
      | mk outcome v =>
        rw [h] at hend hgood
        obtain rfl : outcome = _ := hend
        cases hgood
    · rw [transitLoop, h]
      cases outcome <;> rfl

/-- **Required transit** is metered. -/
theorem enumerateTransit_isMetered (stages : List TransitStage) :
    workMeter.IsMetered IsDecisive Prod.mk (enumerateTransit view stages options) := by
  unfold enumerateTransit
  split_ifs
  · exact .pure _ fun _ => rfl
  · cases transitCombinations view.limits stages with
    | error result => exact .pure result fun _ => rfl
    | ok combinations =>
      exact transitLoop_isMetered view options stages (List.range combinations) none
        .requiredNodeMissing

/-! ### Deviations -/

/-- What follows the payment of a spur search. -/
def spurAfter (accepted : List RankedRawPath) (previous : RawPath) (pending : List RankedRawPath)
    (spurIndex : ℕ) (work : Work) :
    Except (EnumerationResult × Work) (List RankedRawPath × Work) :=
  let (spur, work) := shortestPath view (options.remainingHops spurIndex)
    (spurBans accepted previous spurIndex) (previous.nodes.getD spurIndex 0)
    options.destinationView work
  if spur.resourceLimit then
    .error (workExhausted "work budget exhausted during a spur search", work)
  else if !spur.found then .ok (pending, work)
  else .ok (addSpur view accepted pending (spurTotal previous spurIndex spur.path), work)

/-- Pending paths with other work. -/
def withWork (work : Work) (state : List RankedRawPath × Work) : List RankedRawPath × Work :=
  (state.1, work)

theorem spurSearch_isMetered (accepted : List RankedRawPath) (previous : RawPath) (spurIndex : ℕ) :
    workMeter.IsMeteredStep withWork fun state =>
      spurSearch view options accepted previous state spurIndex := by
  rintro ⟨pending, -⟩
  have hafter : workMeter.IsMetered Succeeds (fun state work => .ok (withWork work state))
      (spurAfter view options accepted previous pending spurIndex) := by
    unfold spurAfter
    refine (shortestPath_isMetered view (options.remainingHops spurIndex)
      (spurBans accepted previous spurIndex) (previous.nodes.getD spurIndex 0)
      options.destinationView).bind (k := fun spur work =>
        if spur.resourceLimit then
          .error (workExhausted "work budget exhausted during a spur search", work)
        else if !spur.found then .ok (pending, work)
        else .ok (addSpur view accepted pending (spurTotal previous spurIndex spur.path), work))
      (fun spur => ?_) (fun w hgood => ?_) fun w spur v h => ?_
    · split_ifs
      · exact .of_not_good fun _ => not_succeeds_error
      · exact .pure (pending, ⟨{}, {}⟩) fun _ => rfl
      · exact .pure (addSpur view accepted pending (spurTotal previous spurIndex spur.path),
          ⟨{}, {}⟩) fun _ => rfl
    · rw [IsUnlimited, ← Bool.not_eq_true]
      intro hlimit
      dsimp only at hgood
      rw [if_pos hlimit] at hgood
      exact not_succeeds_error hgood
    · rw [h]
  refine Work.spendSpur_isMetered.afterPayment (fun w v h => ?_) (fun w v h => ?_) hafter
  · dsimp only [withWork]
    rw [spurSearch, h]
    rfl
  · dsimp only [withWork]
    rw [spurSearch, h]
    exact not_succeeds_error

/-- A state with other work. -/
def EnumerationState.withWork (work : Work) (state : EnumerationState) : EnumerationState :=
  { state with work }

/-- What follows the spur searches of a round. -/
def afterSpurs (wanted fuel : ℕ) (state : EnumerationState)
    (spurs : List RankedRawPath × Work) (work : Work) :
    Except (EnumerationResult × Work) EnumerationState :=
  match takeBest view spurs.1 with
  | none => .ok { state with pending := spurs.1, work := work }
  | some (best, rest) => enumerationLoop view options wanted fuel
      { accepted := state.accepted ++ [best], pending := rest, work := work }

theorem enumerationLoop_isMetered (wanted fuel : ℕ) :
    workMeter.IsMeteredStep EnumerationState.withWork
      (enumerationLoop view options wanted fuel) := by
  induction fuel with
  | zero => exact fun state => .pure state fun _ => rfl
  | succ fuel ih =>
    intro state
    unfold enumerationLoop
    dsimp only [EnumerationState.withWork]
    by_cases hwanted : state.accepted.length < wanted
    · simp only [hwanted, if_true]
      cases state.accepted.getLast? with
      | none => exact .pure state fun _ => rfl
      | some previous =>
        dsimp only
        have hspurs : workMeter.IsMeteredStep PathPlanner.withWork fun pending =>
            (List.range previous.path.hopCount).foldlM
              (spurSearch view options state.accepted previous.path) pending :=
          IsMeteredStep.foldlM fun spurIndex _ =>
            spurSearch_isMetered view options state.accepted previous.path spurIndex
        refine (hspurs (state.pending, state.work)).bind
          (k := afterSpurs view options wanted fuel state)
          (fun spurs => ?_) (fun w hgood => ?_) fun w spurs v h => ?_
        · unfold afterSpurs
          cases takeBest view spurs.1 with
          | none => exact .pure { state with pending := spurs.1 } fun _ => rfl
          | some taken => exact ih ⟨state.accepted ++ [taken.1], taken.2, state.work⟩
        · split at hgood
          · exact absurd hgood not_succeeds_error
          · exact ⟨_, ‹_›⟩
        · dsimp only [PathPlanner.withWork] at h
          exact h ▸ rfl
    · simp only [hwanted, if_false]
      exact .pure state fun _ => rfl

/-- The enumeration of paths ends without a limit. -/
def EndsDecisively (t : Except (EnumerationResult × Work) (List RankedRawPath × Work)) : Prop :=
  ∀ ended, t = .error ended → IsDecisive ended

/-- What the enumeration of paths returns, beside the work. -/
def enumeratedWith :
    Except EnumerationResult (List RankedRawPath) → Work →
      Except (EnumerationResult × Work) (List RankedRawPath × Work)
  | .error result, work => .error (result, work)
  | .ok accepted, work => .ok (accepted, work)

/-- What follows the first path. -/
def deviationsFrom (first : RankedRawPath) (work : Work) :
    Except (EnumerationResult × Work) (List RankedRawPath × Work) :=
  match enumerationLoop view options options.wanted options.wanted ⟨[first], [], work⟩ with
  | .error ended => .error ended
  | .ok state => .ok (state.accepted, state.work)

theorem deviationsFrom_isMetered (first : RankedRawPath) :
    workMeter.IsMetered EndsDecisively enumeratedWith (deviationsFrom view options first) := by
  refine (enumerationLoop_isMetered view options options.wanted options.wanted
    ⟨[first], [], ⟨{}, {}⟩⟩).map (fun state => .ok state.accepted) (fun w hgood => ?_)
      fun w state v h => ?_
  · cases hloop : enumerationLoop view options options.wanted options.wanted ⟨[first], [], w⟩ with
    | error ended =>
      obtain ⟨detail, hended⟩ := enumerationLoop_error hloop
      have hlimit := hgood ended (by rw [deviationsFrom, hloop])
      rw [IsDecisive, hended] at hlimit
      cases hlimit
    | ok state => exact ⟨state, hloop⟩
  · dsimp only [EnumerationState.withWork] at h
    rw [deviationsFrom, h]
    rfl

theorem enumeratePaths_isMetered :
    workMeter.IsMetered EndsDecisively enumeratedWith (enumeratePaths view options) := by
  unfold enumeratePaths
  refine (shortestPath_isMetered view options.maxHops {} options.sourceView
    options.destinationView).bind (k := fun first work =>
      if first.resourceLimit then .error (workExhausted "", work)
      else if !first.found then
        .error ({ failure := if first.costOverflow then .costOverflow else .noStructuralPath },
          work)
      else
        match view.computeRawPathCost first.path with
        | none => .error ({ failure := .costOverflow }, work)
        | some cost => deviationsFrom view options ⟨first.path, cost⟩ work)
    (fun first => ?_) (fun w hgood => ?_) fun w first v h => ?_
  · split_ifs
    · exact .of_not_good fun work hgood => Bool.noConfusion (hgood _ rfl)
    · exact .pure (.error { failure := .costOverflow }) fun _ => rfl
    · exact .pure (.error { failure := .noStructuralPath }) fun _ => rfl
    · cases view.computeRawPathCost first.path with
      | none => exact .pure (.error { failure := .costOverflow }) fun _ => rfl
      | some cost => exact deviationsFrom_isMetered view options ⟨first.path, cost⟩
  · rw [IsUnlimited, ← Bool.not_eq_true]
    intro hlimit
    dsimp only at hgood
    rw [if_pos hlimit] at hgood
    exact Bool.noConfusion (hgood _ rfl)
  · rw [h]
    rfl

/-- **An enumeration** is metered: as long as it reports no limit, what it returns and what it costs
do not depend on the budget. -/
theorem enumerateCandidatePaths_isMetered (request : PlanningRequest) :
    workMeter.IsMetered IsDecisive Prod.mk (enumerateCandidatePaths view request options) := by
  unfold enumerateCandidatePaths
  split_ifs
  · exact enumerateTransit_isMetered view options request.constraints.requiredTransit
  · refine (enumeratePaths_isMetered view options).map (fun ended =>
      match ended with
      | .error result => result
      | .ok accepted => enumerationResult view request options accepted)
      (fun w hgood => ?_) fun w ended v h => ?_
    · intro ended hended
      rw [hended] at hgood
      exact hgood
    · rw [h]
      cases ended <;> rfl

end Enumeration

end PathPlanner
