import PathPlanner.Runtime.System

/-!
# Retired plans

An invalidation retires a retained plan when a dependency of the plan is missing from the published
snapshot. Other calls overwrite the currentness of an entry, and some of them revive it.

## Main definitions

* `RuntimeOperation.KeepsRetired`: the call leaves a retired entry retired
* `RuntimeState.HoldsRetired`: a snapshot is published, and the entry of a key is retired

## Main results

* `RuntimeState.HoldsRetired.perform`: the step lemma
* `PlannerSystem.retired_terminal`: a retired entry stays retired in a run of such calls
-/

namespace PathPlanner

open Run

/-! ## Calls -/

/-- The call leaves a retired entry retired: it publishes a snapshot, a notice that affects the plan
finds a dependency missing, an accepted advance of the epoch is not conservative, and no plan with
the identity is retained again. -/
def RuntimeOperation.KeepsRetired (key : PathPlanId) (state : RuntimeState) :
    RuntimeOperation → Prop
  | .publishSnapshot snapshot => snapshot.isSome
  | .applyInvalidation notice => key ∈ state.affectedKeys notice →
      ∀ entry ∈ state.retained.lookup key, ∀ snapshot ∈ state.snapshot,
        dependencyMissing snapshot entry.plan
  | .advanceEpoch epoch conservativeRecovery => state.epoch < epoch → conservativeRecovery = false
  | .retain plan => plan.id.isValid → key ≠ plan.id

instance (key : PathPlanId) (state : RuntimeState) :
    (op : RuntimeOperation) → Decidable (op.KeepsRetired key state)
  | .publishSnapshot snapshot => inferInstanceAs (Decidable (snapshot.isSome = true))
  | .applyInvalidation notice => inferInstanceAs (Decidable (key ∈ state.affectedKeys notice →
      ∀ entry ∈ state.retained.lookup key, ∀ snapshot ∈ state.snapshot,
        dependencyMissing snapshot entry.plan = true))
  | .advanceEpoch epoch conservativeRecovery =>
    inferInstanceAs (Decidable (state.epoch < epoch → conservativeRecovery = false))
  | .retain plan => inferInstanceAs (Decidable (plan.id.isValid = true → key ≠ plan.id))

namespace RuntimeState

variable {state : RuntimeState} {key : PathPlanId}

/-- A snapshot is published, and the entry of a key is retired if there is one. -/
structure HoldsRetired (key : PathPlanId) (state : RuntimeState) : Prop where
  published : state.snapshot.isSome
  retired : ∀ entry, state.retained.lookup key = some entry → entry.currentness = .retired

/-- The entry that an invalidation leaves, when a dependency is missing. -/
theorem invalidatedEntry_retired {snapshot : FabricSnapshot} {entry : RetainedPlan}
    (h : dependencyMissing snapshot entry.plan = true) :
    (invalidatedEntry (some snapshot) entry).currentness = .retired := by
  change invalidatedCurrentness (some snapshot) entry.plan = .retired
  unfold invalidatedCurrentness
  rw [Option.any_some, if_pos h]

/-- **The step lemma.** -/
theorem HoldsRetired.perform {op : RuntimeOperation} (h : state.HoldsRetired key)
    (hop : op.KeepsRetired key state) : (state.perform op).HoldsRetired key := by
  cases op with
  | publishSnapshot snapshot => exact ⟨hop, h.retired⟩
  | applyInvalidation notice =>
    obtain ⟨stats, retained, heq, hlookup, _⟩ := state.applyInvalidation_spec notice
    change (state.applyInvalidation notice).1.HoldsRetired key
    rw [heq]
    refine ⟨h.published, fun entry hentry => ?_⟩
    dsimp only at hentry
    rw [hlookup] at hentry
    obtain ⟨old, hold, rfl⟩ := Option.map_eq_some_iff.mp hentry
    split_ifs with haffected
    · -- the snapshot lacks a dependency, so that the entry is retired once more
      obtain ⟨snapshot, hs⟩ := Option.isSome_iff_exists.mp h.published
      rw [hs]
      exact invalidatedEntry_retired (hop haffected old hold snapshot hs)
    · exact h.retired old hold
  | advanceEpoch epoch conservativeRecovery =>
    by_cases hlt : state.epoch < epoch
    · obtain ⟨_, heq⟩ := perform_advanceEpoch_of_lt hlt conservativeRecovery
      rw [heq, hop hlt]
      exact ⟨h.published, h.retired⟩
    · rw [perform_advanceEpoch_of_le (not_lt.mp hlt)]
      exact h
  | retain plan =>
    obtain ⟨stats, retained, index, order, heq, hlookup⟩ := state.retain_spec plan
    change (state.retain plan).2.HoldsRetired key
    rw [heq]
    refine ⟨h.published, fun entry hentry => ?_⟩
    -- the entry of another plan stays or is evicted
    rcases hlookup key hop with hnone | hsame
    · rw [hnone] at hentry
      cases hentry
    · exact h.retired entry (hsame.symm.trans hentry)

/-- A plan whose entry is retired is found retired. -/
theorem HoldsRetired.checkCurrentness (h : state.HoldsRetired key) {entry : RetainedPlan}
    (hentry : state.retained.lookup key = some entry) {plan : PathPlan} (hid : plan.id = key) :
    (state.checkCurrentness plan).currentness = .retired := by
  subst hid
  have hretained : state.retainedCurrentness plan = some .retired := by
    unfold retainedCurrentness
    rw [hentry, Option.map_some, h.retired entry hentry]
  obtain ⟨snapshot, hs⟩ := Option.isSome_iff_exists.mp h.published
  unfold RuntimeState.checkCurrentness
  rw [hs]
  dsimp only
  cases missingDependency snapshot plan with
  | some subject => rfl
  | none =>
    dsimp only
    rw [if_pos hretained, note_currentness]

end RuntimeState

/-! ## Runs -/

namespace PlannerSystem

variable {sha : List UInt8 → Sha256Digest} {system system' : PlannerSystem} {key : PathPlanId}
  {actions : List PlannerAction}

/-- The section leaves a retired entry retired. -/
def KeepsRetired (key : PathPlanId) (system : PlannerSystem) : PlannerAction → Prop
  | .perform op => op.KeepsRetired key system.runtime
  | _ => True

instance (key : PathPlanId) :
    (system : PlannerSystem) → (action : PlannerAction) → Decidable (KeepsRetired key system action)
  | system, .perform op => inferInstanceAs (Decidable (op.KeepsRetired key system.runtime))
  | _, .capture .. => isTrue trivial
  | _, .compare _ => isTrue trivial
  | _, .publish _ => isTrue trivial

theorem holdsRetired_of_step {action : PlannerAction} (hkeeps : KeepsRetired key system action)
    (hstep : system.step sha action = some system') (h : system.runtime.HoldsRetired key) :
    system'.runtime.HoldsRetired key := by
  rcases step_cases hstep with ⟨op, rfl, rfl⟩ | ⟨_, _, _, _, _, _, _, rfl⟩
  · exact h.perform hkeeps
  · exact ⟨h.published, h.retired⟩

/-- **A retired plan stays retired** while it is retained, in a run whose steps all leave it so, and
its currentness is found to be retired. -/
theorem retired_terminal {entry : RetainedPlan} (hpublished : system.runtime.snapshot.isSome)
    (hentry : system.runtime.retained.lookup key = some entry)
    (hretired : entry.currentness = .retired)
    (hkeeps : StepsMeet (step sha) (KeepsRetired key) system actions)
    (hrun : run (step sha) system actions = some system') {entry' : RetainedPlan}
    (hstays : system'.runtime.retained.lookup key = some entry') :
    entry'.currentness = .retired ∧ ∀ plan : PathPlan, plan.id = key →
      (system'.runtime.checkCurrentness plan).currentness = .retired := by
  have hstart : system.runtime.HoldsRetired key := by
    refine ⟨hpublished, fun e he => ?_⟩
    obtain rfl := Option.some.inj (hentry.symm.trans he)
    exact hretired
  have hend : system'.runtime.HoldsRetired key :=
    hkeeps.invariant (I := fun s : PlannerSystem => s.runtime.HoldsRetired key)
      (fun _ _ _ hk hs h => holdsRetired_of_step hk hs h) hrun hstart
  exact ⟨hend.retired entry' hstays, fun plan hid => hend.checkCurrentness hstays hid⟩

/-! ## A plan that is retained again -/

/-- A plan between the endpoints of one node. -/
def localPlan (node : UInt8) : PathPlan where
  id := .tagged 0 node
  candidates := [{
    id := .tagged 0 node
    path := { source := .tagged 0 node, destination := .tagged 0 node, nodes := [.tagged 0 node] }
    cost := ⟨.ofNat 0, .ofNat 0, .ofNat 0, .ofNat 0, .ofNat 0, .ofNat 0, 0, 0⟩ }]

/-- The nodes of `singleLink` and one more. -/
def threeNodes : FabricSnapshot :=
  (FabricSnapshotBuilder.ofLinks [1, 2, 3] [(1, 2)]).snapshotWith (by decide +kernel)
    ⟨Vector.replicate 32 3⟩

/-- The plan is retained, its node disappears, and a conservative notice retires the plan. -/
def retiredSystem : PlannerSystem where
  runtime := (runtimeOver threeNodes).performAll [.retain (localPlan 3),
    .publishSnapshot (some singleLink), .applyInvalidation { conservativeAll := true }]

/-- The epoch advances without a conservative recovery. -/
def laterSystem : PlannerSystem :=
  { retiredSystem with runtime := retiredSystem.runtime.perform (.advanceEpoch (.ofNat 2) false) }

/-- The plan is retained again. -/
def revivedSystem : PlannerSystem :=
  { retiredSystem with runtime := retiredSystem.runtime.perform (.retain (localPlan 3)) }

theorem retired_terminal_laterSystem :
    (laterSystem.runtime.checkCurrentness (localPlan 3)).currentness = .retired := by
  have hentry : (retiredSystem.runtime.retained.lookup (localPlan 3).id).isSome := by decide +kernel
  have hstays : (laterSystem.runtime.retained.lookup (localPlan 3).id).isSome := by decide +kernel
  have hrun : run (step constantHash) retiredSystem [.perform (.advanceEpoch (.ofNat 2) false)] =
    some laterSystem := rfl
  exact (retired_terminal (by decide +kernel) (Option.some_get hentry).symm
    (by decide +kernel +revert) (by decide +kernel) hrun (Option.some_get hstays).symm).2 _ rfl

/-- A retired plan that is retained again is no longer retired. -/
theorem not_retired_terminal_revivedSystem :
    ¬ ∀ (system system' : PlannerSystem) (actions : List PlannerAction) (key : PathPlanId)
        (entry entry' : RetainedPlan),
      system.runtime.retained.lookup key = some entry → entry.currentness = .retired →
      run (step constantHash) system actions = some system' →
      system'.runtime.retained.lookup key = some entry' → entry'.currentness = .retired := by
  intro h
  have hentry : (retiredSystem.runtime.retained.lookup (localPlan 3).id).isSome := by decide +kernel
  have hstays : (revivedSystem.runtime.retained.lookup (localPlan 3).id).isSome := by decide +kernel
  have hrun : run (step constantHash) retiredSystem [.perform (.retain (localPlan 3))] =
    some revivedSystem := rfl
  have hretired := h _ _ _ _ _ _ (Option.some_get hentry).symm (by decide +kernel +revert) hrun
    (Option.some_get hstays).symm
  revert hretired
  decide +kernel +revert

end PlannerSystem

end PathPlanner
