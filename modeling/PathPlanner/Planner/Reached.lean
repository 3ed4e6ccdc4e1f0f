import PathPlanner.Planner.NoPath
import PathPlanner.Search.Reconfigured

/-!
# Calls that reach the enumeration

A call that is not refused early builds a view, enumerates paths over it and ranks the candidates
before the Path Authority is consulted.

## Main definitions

* `viewOf`: the view of a call
* `Reaches`: the stages before the Path Authority
* `Reaches.found`, `Reaches.ranked`: what is found, and the unfiltered ranking
* `Reaches.Searches`: the candidates come from an enumeration

## Main results

* `Reaches.computePlan_eq`: the stages that are left
* `enumerateCandidatePaths_limited`: an enumeration that is limited returns nothing
* `Reaches.computePlan_of_limited`: a call whose enumeration is limited
-/

namespace PathPlanner

variable {sha : List UInt8 → Sha256Digest} {capture : PlanCapture} {request : PlanningRequest}

/-- The view of a call over a snapshot. -/
def viewOf (snapshot : FabricSnapshot) (limits : ResourceLimits) (request : PlanningRequest) :
    Option BuiltView := do
  let source ← (resolveEndpoint snapshot request.source true).toOption
  let destination ← (resolveEndpoint snapshot request.destination false).toOption
  (buildPlanningView snapshot request limits source.node.id destination.node.id).toOption

/-- The stages that a call has passed when it has built a view. -/
structure Reaches (capture : PlanCapture) (request : PlanningRequest) where
  snapshot : FabricSnapshot
  source : ResolvedEndpoint
  destination : ResolvedEndpoint
  built : BuiltView
  checked : checkRequest capture request = .ok snapshot
  resolves_source : resolveEndpoint snapshot request.source true = .ok source
  resolves_destination : resolveEndpoint snapshot request.destination false = .ok destination
  builds : buildView capture request snapshot
    (resolvedResult capture request snapshot source destination) = .ok built

/-- A call that passes all stages passes the first ones. -/
def Passes.reaches (p : Passes sha capture request) : Reaches capture request where
  snapshot := p.snapshot
  source := p.source
  destination := p.destination
  built := p.built
  checked := p.checked
  resolves_source := p.resolves_source
  resolves_destination := p.resolves_destination
  builds := p.builds

namespace Reaches

variable (r : Reaches capture request)

/-- The result while no candidate is known. -/
def resolved : PlanningResult :=
  resolvedResult capture request r.snapshot r.source r.destination

/-- The snapshot is the captured one. -/
theorem snapshot_eq : capture.snapshot = some r.snapshot := (checkRequest_eq_ok r.checked).1

include r in
/-- The request is valid. -/
theorem valid : validateRequest request capture.limits = none := (checkRequest_eq_ok r.checked).2

theorem viewOf_eq : viewOf r.snapshot capture.limits request = some r.built := by
  have hbuilt : buildPlanningView r.snapshot request capture.limits r.source.node.id
      r.destination.node.id = .ok r.built := buildView_eq_ok r.builds
  unfold viewOf
  rw [r.resolves_source, r.resolves_destination]
  change (buildPlanningView r.snapshot request capture.limits r.source.node.id
    r.destination.node.id).toOption = some r.built
  rw [hbuilt]
  rfl

variable (sha) in
/-- What the call finds. -/
def found : Enumerated := findCandidates sha capture.limits request r.built

variable (sha) in
/-- The unfiltered ranking. -/
def ranked : List Candidate :=
  rankedCandidates request r.snapshot r.built r.resolved.evidence (r.found sha)

/-- The ranking is empty exactly when nothing is found. -/
theorem ranked_eq_nil_iff : r.ranked sha = [] ↔ (r.found sha).candidates = [] :=
  rankCandidates_eq_nil_iff (validateRequest_candidates r.valid).1

variable (sha) in
/-- The result that is compared and published, when some candidates stay. -/
def computed (candidates : List Candidate) : ComputedPlan where
  snapshot := r.snapshot
  result := finishResult request r.snapshot r.built (r.found sha) r.resolved candidates
  stats := (r.found sha).stats

/-- **The stages that are left**: the Path Authority, and the end. -/
theorem computePlan_eq : computePlan sha capture request =
    (validateCandidates capture.authority request.policy.authorityValidation r.built.view
      (r.found sha).truncated r.resolved (r.ranked sha)).map (r.computed sha) := by
  unfold computePlan
  rw [r.checked]
  change (resolveEndpoint r.snapshot request.source true >>= _) = _
  rw [r.resolves_source]
  change (resolveEndpoint r.snapshot request.destination false >>= _) = _
  rw [r.resolves_destination]
  change (buildView capture request r.snapshot _ >>= _) = _
  rw [r.builds]
  change (validateCandidates capture.authority _ _ (r.found sha).truncated r.resolved
    (r.ranked sha) >>= _) = _
  cases validateCandidates capture.authority request.policy.authorityValidation r.built.view
    (r.found sha).truncated r.resolved (r.ranked sha) <;> rfl

/-- Without a candidate the Path Authority is not consulted. -/
theorem computePlan_of_ranked_nil (h : r.ranked sha = []) :
    computePlan sha capture request = .ok (r.computed sha []) := by
  rw [r.computePlan_eq, h]
  unfold validateCandidates
  rw [if_pos (Or.inr List.isEmpty_nil)]
  rfl

/-- The candidates come from an enumeration: the endpoints differ, or transit is required. -/
def Searches : Prop :=
  r.built.sourceView ≠ r.built.destinationView ∨ request.constraints.requiredTransit ≠ []

variable {r}

theorem Searches.found_eq (h : r.Searches) :
    r.found sha = enumerateCandidates sha capture.limits request r.built := by
  have hnot : ¬ (r.built.sourceView = r.built.destinationView ∧
      (!(!request.constraints.requiredTransit.isEmpty)) = true) := by
    rintro ⟨heq, hnone⟩
    rcases h with hne | hne
    · exact hne heq
    · rw [Bool.not_not, List.isEmpty_iff] at hnone
      exact hne hnone
  unfold found findCandidates
  dsimp only
  rw [if_neg fun h => hnot ⟨h.1, h.2.1⟩, if_neg hnot]

end Reaches

/-! ## Limits -/

section Limited

variable {view : PlanningView} {options : EnumerationOptions} {work : Work}

theorem enumeratePaths_error_ok {ended : EnumerationResult × Work}
    (h : enumeratePaths view options work = .error ended) : ended.1.ok = false := by
  unfold enumeratePaths at h
  dsimp only at h
  split_ifs at h
  · rw [← Except.error.inj h]
    rfl
  · rw [← Except.error.inj h]
  · rw [← Except.error.inj h]
  · split at h
    · rw [← Except.error.inj h]
    · split at h
      · next hloop =>
        obtain ⟨detail, hdetail⟩ := enumerationLoop_error hloop
        rw [← Except.error.inj h, hdetail]
        rfl
      · cases h

/-- **An enumeration that is limited** returns nothing. -/
theorem enumerateCandidatePaths_limited
    (h : (enumerateCandidatePaths view request options work).1.resourceLimit = true) :
    (enumerateCandidatePaths view request options work).1.ok = false ∧
      (enumerateCandidatePaths view request options work).1.paths = [] := by
  unfold enumerateCandidatePaths at h ⊢
  by_cases htransit : (!request.constraints.requiredTransit.isEmpty) = true
  · rw [if_pos htransit] at h ⊢
    unfold enumerateTransit at h ⊢
    by_cases hmany : options.maxCandidates > 1
    · rw [if_pos hmany]
      exact ⟨rfl, rfl⟩
    · rw [if_neg hmany] at h ⊢
      cases hcount : transitCombinations view.limits request.constraints.requiredTransit with
      | error result => exact transitCombinations_error hcount
      | ok combinations =>
        rw [hcount] at h
        exact transitLoop_limited h
  · rw [if_neg htransit] at h ⊢
    cases hpaths : enumeratePaths view options work with
    | error ended => exact ⟨enumeratePaths_error_ok hpaths, enumeratePaths_error_paths hpaths⟩
    | ok accepted =>
      rw [hpaths] at h
      cases h

end Limited

namespace Reaches

variable {r : Reaches capture request}

/-- **A call whose enumeration is limited** reports it, without candidates. -/
theorem computePlan_of_limited (hsearches : r.Searches)
    (h : (enumerateCandidatePaths r.built.view request
      (enumerationOptions capture.limits request r.built)
      (initialWork capture.limits)).1.resourceLimit = true) :
    computePlan sha capture request = .ok (r.computed sha []) ∧
      (r.computed sha []).result.status = .resourceLimit := by
  obtain ⟨hok, hpaths⟩ := enumerateCandidatePaths_limited h
  have hfound : (r.found sha).candidates = [] ∧ (r.found sha).resourceLimit = true := by
    rw [hsearches.found_eq]
    constructor
    · rw [enumerateCandidates_candidates]
      simp only [hpaths, List.filterMap_nil, ite_self]
    · unfold enumerateCandidates
      simp only [hok, h, Bool.false_eq_true, if_false]
      split_ifs <;> rfl
  refine ⟨r.computePlan_of_ranked_nil (r.ranked_eq_nil_iff.mpr hfound.1), ?_⟩
  unfold computed finishResult emptyOutcome
  simp only [hfound.2, List.isEmpty_nil, if_true]

end Reaches

end PathPlanner
