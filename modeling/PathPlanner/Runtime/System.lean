import PathPlanner.Library.Run
import PathPlanner.Runtime.Currentness
import PathPlanner.Runtime.Retention

/-!
# Concurrent plan calls

A runtime serves plan calls while other threads publish snapshots, apply invalidations, advance the
epoch and retain plans. A `Plan` call holds the mutex three times, to capture its evidence, to
compare the publication sequence and to publish; between these sections any other section can run.

## Main definitions

* `PlannerSystem`, `PlannerSystem.step`: a runtime with its calls, and one section
* `RuntimeOperation.Advances`: the calls that advance the publication sequence

## Main results

* `perform_publishSequence`, `perform_epoch`: what a call does to the sequence and the epoch
* `PlannerSystem.step_cases`: what a section changes
-/

namespace PathPlanner

open Run

/-! ## What a call changes -/

/-- The call advances the publication sequence. -/
def RuntimeOperation.Advances (state : RuntimeState) : RuntimeOperation → Prop
  | .publishSnapshot _ => True
  | .applyInvalidation _ => True
  | .advanceEpoch epoch _ => state.epoch < epoch
  | .retain _ => False

instance (state : RuntimeState) (op : RuntimeOperation) : Decidable (op.Advances state) :=
  match op with
  | .publishSnapshot _ => isTrue trivial
  | .applyInvalidation _ => isTrue trivial
  | .advanceEpoch epoch _ => inferInstanceAs (Decidable (state.epoch < epoch))
  | .retain _ => isFalse not_false

namespace RuntimeState

variable {state : RuntimeState} {op : RuntimeOperation}

theorem perform_applyInvalidation (state : RuntimeState) (notice : InvalidationNotice) :
    ∃ stats retained, state.perform (.applyInvalidation notice) = { state with
      publishSequence := PlanPublishSequence.next state.publishSequence
      stats := stats
      retained := retained } := by
  obtain ⟨stats, retained, hstate, _⟩ := state.applyInvalidation_spec notice
  exact ⟨stats, retained, hstate⟩

theorem perform_retain (state : RuntimeState) (plan : PathPlan) :
    ∃ stats retained index order, state.perform (.retain plan) = { state with
      stats := stats
      retained := retained
      index := index
      retentionOrder := order } := by
  obtain ⟨stats, retained, index, order, hstate, _⟩ := state.retain_spec plan
  exact ⟨stats, retained, index, order, hstate⟩

theorem perform_advanceEpoch_of_lt {epoch : FabricEpoch}
    (h : state.epoch < epoch) (conservativeRecovery : Bool) : ∃ stats,
    state.perform (.advanceEpoch epoch conservativeRecovery) = { state with
      epoch := epoch
      publishSequence := PlanPublishSequence.next state.publishSequence
      stats := stats
      retained :=
        if conservativeRecovery then mapRetained (fun _ => .revalidationRequired) state.retained
        else state.retained } := by
  unfold perform advanceEpoch
  dsimp only
  rw [if_neg (not_le.mpr h)]
  exact ⟨_, rfl⟩

theorem perform_advanceEpoch_of_le {epoch : FabricEpoch}
    (h : epoch ≤ state.epoch) (conservativeRecovery : Bool) :
    state.perform (.advanceEpoch epoch conservativeRecovery) = state := by
  unfold perform advanceEpoch
  dsimp only
  rw [if_pos h]

/-- **The publication sequence** moves exactly with the calls that advance it. -/
theorem perform_publishSequence (state : RuntimeState) (op : RuntimeOperation) :
    (state.perform op).publishSequence =
      if op.Advances state then PlanPublishSequence.next state.publishSequence
      else state.publishSequence := by
  cases op with
  | publishSnapshot snapshot => exact (if_pos trivial).symm
  | applyInvalidation notice =>
    obtain ⟨_, _, heq⟩ := state.perform_applyInvalidation notice
    rw [heq, if_pos (show (RuntimeOperation.applyInvalidation notice).Advances state from trivial)]
  | advanceEpoch epoch conservativeRecovery =>
    by_cases h : state.epoch < epoch
    · obtain ⟨_, heq⟩ := perform_advanceEpoch_of_lt h conservativeRecovery
      rw [heq]
      exact (if_pos h).symm
    · rw [perform_advanceEpoch_of_le (not_lt.mp h)]
      exact (if_neg h).symm
  | retain plan =>
    obtain ⟨_, _, _, _, heq⟩ := state.perform_retain plan
    rw [heq, if_neg (show ¬ (RuntimeOperation.retain plan).Advances state from not_false)]

/-- **The epoch** moves with an accepted advance, and is taken from a published snapshot. -/
theorem perform_epoch (state : RuntimeState) (op : RuntimeOperation) :
    (state.perform op).epoch =
      match op with
      | .publishSnapshot snapshot => snapshot.elim state.epoch (·.generations.epoch)
      | .advanceEpoch epoch _ => max state.epoch epoch
      | _ => state.epoch := by
  cases op with
  | publishSnapshot snapshot => rfl
  | applyInvalidation notice =>
    obtain ⟨_, _, heq⟩ := state.perform_applyInvalidation notice
    rw [heq]
  | advanceEpoch e conservativeRecovery =>
    rcases lt_or_ge state.epoch e with h | h
    · obtain ⟨_, heq⟩ := perform_advanceEpoch_of_lt h conservativeRecovery
      rw [heq]
      exact (max_eq_right h.le).symm
    · rw [perform_advanceEpoch_of_le h]
      exact (max_eq_left h).symm
  | retain plan =>
    obtain ⟨_, _, _, _, heq⟩ := state.perform_retain plan
    rw [heq]

/-- Only a publication of a snapshot changes the snapshot. -/
theorem perform_snapshot (state : RuntimeState) (op : RuntimeOperation) :
    (state.perform op).snapshot =
      match op with
      | .publishSnapshot snapshot => snapshot
      | _ => state.snapshot := by
  cases op with
  | publishSnapshot snapshot => rfl
  | applyInvalidation notice =>
    obtain ⟨_, _, heq⟩ := state.perform_applyInvalidation notice
    rw [heq]
  | advanceEpoch e conservativeRecovery =>
    rcases lt_or_ge state.epoch e with h | h
    · obtain ⟨_, heq⟩ := perform_advanceEpoch_of_lt h conservativeRecovery
      rw [heq]
    · rw [perform_advanceEpoch_of_le h]
  | retain plan =>
    obtain ⟨_, _, _, _, heq⟩ := state.perform_retain plan
    rw [heq]

end RuntimeState

/-! ## Calls in flight -/

/-- Where a `Plan` call stands. -/
inductive PlanPhase
  /-- It has captured its evidence. -/
  | captured
  /-- It has compared the publication sequence. -/
  | compared (computed : ComputedPlan)
  /-- It has returned. -/
  | returned (result : PlanningResult)

/-- A `Plan` call. -/
structure PlanCall where
  request : PlanningRequest
  capture : PlanCapture
  phase : PlanPhase

/-- A runtime with the calls that threads have made. -/
structure PlannerSystem where
  runtime : RuntimeState
  calls : AList (fun _ : ℕ => PlanCall) := ∅

/-- A section under the mutex of the runtime. -/
inductive PlannerAction
  | perform (op : RuntimeOperation)
  | capture (call : ℕ) (request : PlanningRequest) (authority : PathAuthority)
  | compare (call : ℕ)
  | publish (call : ℕ)

namespace PlannerSystem

variable (sha : List UInt8 → Sha256Digest)

/-- The second section of a call, after the computation that holds no lock. A result that is
returned unpublished ends the call here. -/
def compareCall (system : PlannerSystem) (call : ℕ) (entry : PlanCall) : PlannerSystem :=
  let phase :=
    match computePlan sha entry.capture entry.request with
    | .error result => .returned result
    | .ok computed => .compared (system.runtime.comparePlan entry.capture computed)
  { system with calls := system.calls.insert call { entry with phase } }

/-- The third section of a call. -/
def publishCall (system : PlannerSystem) (call : ℕ) (entry : PlanCall) (computed : ComputedPlan) :
    PlannerSystem :=
  let (result, runtime) :=
    system.runtime.publishPlan sha entry.capture entry.request computed
  { runtime, calls := system.calls.insert call { entry with phase := .returned result } }

/-- One section; a call is identified by a fresh number. -/
def step (system : PlannerSystem) : PlannerAction → Option PlannerSystem
  | .perform op => some { system with runtime := system.runtime.perform op }
  | .capture call request authority =>
    if system.calls.lookup call = none then
      let (capture, runtime) := system.runtime.capturePlan authority
      some { runtime, calls := system.calls.insert call { request, capture, phase := .captured } }
    else none
  | .compare call =>
    match system.calls.lookup call with
    | some entry =>
      match entry.phase with
      | .captured => some (system.compareCall sha call entry)
      | _ => none
    | none => none
  | .publish call =>
    match system.calls.lookup call with
    | some entry =>
      match entry.phase with
      | .compared computed => some (system.publishCall sha call entry computed)
      | _ => none
    | none => none

variable {sha} {system system' : PlannerSystem} {call : ℕ}

/-! ## What a section changes -/

/-- The step of one call in a runtime. -/
inductive CallStep (sha : List UInt8 → Sha256Digest) (runtime : RuntimeState) :
    Option PlanCall → PlanCall → Prop
  | capture (request : PlanningRequest) (authority : PathAuthority) :
    CallStep sha runtime none ⟨request, (runtime.capturePlan authority).1, .captured⟩
  | refuse (request : PlanningRequest) (capture : PlanCapture) (result : PlanningResult)
      (h : computePlan sha capture request = .error result) :
    CallStep sha runtime (some ⟨request, capture, .captured⟩) ⟨request, capture, .returned result⟩
  | compare (request : PlanningRequest) (capture : PlanCapture) (computed : ComputedPlan)
      (h : computePlan sha capture request = .ok computed) :
    CallStep sha runtime (some ⟨request, capture, .captured⟩)
      ⟨request, capture, .compared (runtime.comparePlan capture computed)⟩
  | publish (request : PlanningRequest) (capture : PlanCapture) (computed : ComputedPlan) :
    CallStep sha runtime (some ⟨request, capture, .compared computed⟩)
      ⟨request, capture, .returned (runtime.publishPlan sha capture request computed).1⟩

/-- A publication changes only the statistics and the request generations of the runtime. -/
theorem publishPlan_spec (state : RuntimeState) (capture : PlanCapture) (request : PlanningRequest)
    (computed : ComputedPlan) :
    ∃ stats generations order, (state.publishPlan sha capture request computed).2 =
      { state with
        stats := stats
        requestGenerations := generations
        requestGenerationOrder := order } := by
  unfold RuntimeState.publishPlan RuntimeState.nextGeneration
  dsimp only
  split
  · split_ifs
    · exact ⟨_, _, _, rfl⟩
    · exact ⟨_, _, _, rfl⟩
  · exact ⟨_, _, _, rfl⟩

/-- **The sections**: a call to the runtime changes no call in flight; a section of a call changes
that call, and of the runtime only the statistics and the request generations. -/
theorem step_cases {action : PlannerAction} (h : system.step sha action = some system') :
    (∃ op, action = .perform op ∧
      system' = { system with runtime := system.runtime.perform op }) ∨
    ((∀ op, action ≠ .perform op) ∧ ∃ call entry stats generations order,
      CallStep sha system.runtime (system.calls.lookup call) entry ∧
      system' = {
        runtime := { system.runtime with
          stats := stats
          requestGenerations := generations
          requestGenerationOrder := order }
        calls := system.calls.insert call entry }) := by
  cases action with
  | perform op => exact Or.inl ⟨op, rfl, (Option.some.inj h).symm⟩
  | capture call request authority =>
    refine Or.inr ⟨by simp, ?_⟩
    unfold step at h
    dsimp only at h
    split_ifs at h with hnone
    refine ⟨call, _, _, _, _, ?_, (Option.some.inj h).symm⟩
    rw [hnone]
    exact CallStep.capture request authority
  | compare call =>
    refine Or.inr ⟨by simp, ?_⟩
    unfold step at h
    dsimp only at h
    split at h
    · next entry hentry =>
      split at h
      · next hphase =>
        obtain ⟨request, capture, phase⟩ := entry
        obtain rfl : phase = .captured := hphase
        obtain rfl := Option.some.inj h
        refine ⟨call, _, _, _, _, ?_, rfl⟩
        rw [hentry]
        dsimp only
        cases hcompute : computePlan sha capture request with
        | error result => exact CallStep.refuse request capture result hcompute
        | ok computed => exact CallStep.compare request capture computed hcompute
      · cases h
    · cases h
  | publish call =>
    refine Or.inr ⟨by simp, ?_⟩
    unfold step at h
    dsimp only at h
    split at h
    · next entry hentry =>
      split at h
      · next computed hphase =>
        obtain ⟨request, capture, phase⟩ := entry
        obtain rfl : phase = .compared computed := hphase
        obtain rfl := Option.some.inj h
        obtain ⟨stats, generations, order, heq⟩ :=
          publishPlan_spec system.runtime capture request computed
        refine ⟨call, _, stats, generations, order, ?_, congrArg (PlannerSystem.mk · _) heq⟩
        rw [hentry]
        exact CallStep.publish request capture computed
      · cases h
    · cases h

end PlannerSystem

end PathPlanner
