import PathPlanner.Planner.HopDistance
import PathPlanner.Runtime.Constraints
import PathPlanner.Search.Sound

/-!
# The hop bound as a structural cause

A call that finds no candidate gives the hop bound as its cause in two ways: a leg of the required
transit had no hops left, or the shortest structural path is longer than the bound. In the second
case the distance is exact, so every path over the links that the structural constraints leave needs
more hops than the bound.

## Main results

* `enumerateCandidatePaths_failure_ne`: without required transit the enumeration does not fail for
  the hop bound
* `Passes.structural_of_maxHopsExceeded`: what the hop bound says as a primary failure
* `structuralHopDistance_exact`: the distance, and what the planner concludes from it
-/

namespace PathPlanner

open Multigraph

/-! ## The failures of an enumeration -/

section Enumeration

variable {view : PlanningView} {options : EnumerationOptions} {request : PlanningRequest}
  {work work' : Work}

/-- The enumeration without required transit does not fail for the hop bound. -/
theorem enumeratePaths_failure_ne {result : EnumerationResult}
    (h : enumeratePaths view options work = .error (result, work')) :
    result.failure ≠ .maxHopsExceeded := by
  unfold enumeratePaths at h
  dsimp only at h
  split at h
  · rw [← (Prod.mk.inj (Except.error.inj h)).1]
    exact nofun
  split at h
  · rw [← (Prod.mk.inj (Except.error.inj h)).1]
    dsimp only
    split_ifs <;> exact nofun
  · split at h
    · rw [← (Prod.mk.inj (Except.error.inj h)).1]
      exact nofun
    · split at h
      · next hloop =>
        obtain ⟨detail, hd⟩ := enumerationLoop_error hloop
        rw [Except.error.inj h] at hd
        rw [show result = workExhausted detail from hd]
        exact nofun
      · cases h

/-- **Without required transit** no enumeration fails for the hop bound. -/
theorem enumerateCandidatePaths_failure_ne (htransit : request.constraints.requiredTransit = []) :
    (enumerateCandidatePaths view request options work).1.failure ≠ .maxHopsExceeded := by
  rw [enumerateCandidatePaths, htransit, List.isEmpty_nil, Bool.not_true, if_neg Bool.false_ne_true]
  cases henum : enumeratePaths view options work with
  | error ended =>
    obtain ⟨result, work'⟩ := ended
    exact enumeratePaths_failure_ne henum
  | ok state =>
    exact (by decide : DiagnosticCode.noStructuralPath ≠ .maxHopsExceeded)

variable {sha : List UInt8 → Sha256Digest} {limits : ResourceLimits} {built : BuiltView}

/-- The failure of a search is that of the enumeration, or that the budget is exhausted. -/
theorem enumerateCandidates_failure {code : DiagnosticCode}
    (h : (enumerateCandidates sha limits request built).failure = some code) :
    code = .workBudgetExhausted ∨
      code = (enumerateCandidatePaths built.view request (enumerationOptions limits request built)
        (initialWork limits)).1.failure := by
  unfold enumerateCandidates at h
  dsimp only at h
  cases hok : (enumerateCandidatePaths built.view request
      (enumerationOptions limits request built) (initialWork limits)).1.ok with
  | true =>
    rw [hok, Bool.true_or, if_pos rfl, if_pos rfl] at h
    split_ifs at h
    exact Or.inl (Option.some.inj h).symm
  | false =>
    rw [hok, if_neg Bool.false_ne_true] at h
    split_ifs at h <;> exact Or.inr (Option.some.inj h).symm

/-- A search fails for the hop bound only over required transit. -/
theorem findCandidates_failure_ne (htransit : request.constraints.requiredTransit = []) :
    (findCandidates sha limits request built).failure ≠ some .maxHopsExceeded := by
  unfold findCandidates
  dsimp only
  split_ifs
  · exact nofun
  · exact nofun
  · intro h
    rcases enumerateCandidates_failure h with hcode | hcode
    · cases hcode
    · exact enumerateCandidatePaths_failure_ne htransit hcode.symm

end Enumeration

/-! ## The cause of a call without a candidate -/

/-- The exclusions of a view do not include the hop bound. -/
theorem primaryFailure_ne_maxHopsExceeded (rejections : RejectionLog) (reachable : Bool) :
    primaryFailure rejections reachable ≠ .maxHopsExceeded := by
  unfold primaryFailure
  have hcauses (causes : List DiagnosticCode) (hnot : .maxHopsExceeded ∉ causes) :
      (causes.find? rejections.contains).getD .noStructuralPath ≠ .maxHopsExceeded := by
    intro h
    cases hfind : causes.find? rejections.contains with
    | none =>
      rw [hfind] at h
      cases h
    | some code =>
      rw [hfind] at h
      exact hnot (h ▸ List.mem_of_find?_eq_some hfind)
  cases reachable with
  | true => exact hcauses exclusionCauses (by decide)
  | false => exact hcauses structuralCauses (by decide)

/-- **The hop bound as the primary failure** of a call without a candidate: the enumeration failed
for it, or the structural distance is more than the bound. -/
theorem emptyOutcome_maxHopsExceeded {snapshot : FabricSnapshot} {request : PlanningRequest}
    {view : PlanningView} {found : Enumerated} {result : PlanningResult}
    (h : (emptyOutcome snapshot request view found result).primaryFailure =
      some .maxHopsExceeded) :
    found.failure = some .maxHopsExceeded ∨
      ∃ distance bound, structuralHopDistance snapshot result.sourceNode result.destinationNode
          request = some distance ∧
        request.constraints.maxHops = some bound ∧ bound.value < distance := by
  unfold emptyOutcome at h
  dsimp only at h
  have hprimary := Option.some.inj h
  cases hfilter : found.failure.filter (· ≠ .noStructuralPath) with
  | some failure =>
    rw [hfilter] at hprimary
    exact Or.inl (hprimary ▸ (Option.filter_eq_some_iff.mp hfilter).1)
  | none =>
    rw [hfilter] at hprimary
    dsimp only at hprimary
    split_ifs at hprimary with hexceeded
    · right
      cases hdistance : structuralHopDistance snapshot result.sourceNode result.destinationNode
          request with
      | none =>
        rw [hdistance] at hexceeded
        cases hexceeded
      | some distance =>
        cases hbound : request.constraints.maxHops with
        | none =>
          rw [hdistance, hbound] at hexceeded
          cases hexceeded
        | some bound =>
          rw [hdistance, hbound] at hexceeded
          exact ⟨distance, bound, rfl, rfl, of_decide_eq_true hexceeded⟩
    · exact absurd hprimary (primaryFailure_ne_maxHopsExceeded _ _)

section Plan

variable {sha : List UInt8 → Sha256Digest} {capture : PlanCapture} {request : PlanningRequest}
  {compared published : RuntimeState}

/-- **A call that gives the hop bound** as its primary failure ran out of hops on the required
transit, or every structural path needs more hops. -/
theorem Passes.structural_of_maxHopsExceeded (p : Passes sha capture request)
    (h : p.result.primaryFailure = some .maxHopsExceeded) :
    (request.constraints.requiredTransit ≠ [] ∧ p.found.failure = some .maxHopsExceeded) ∨
      ∃ distance bound, request.constraints.maxHops = some bound ∧ bound.value < distance ∧
        IsLeast (structuralHopCounts p.snapshot request.constraints p.source.node.id
          p.destination.node.id) distance := by
  unfold Passes.result finishResult at h
  dsimp only at h
  split_ifs at h
  · rcases emptyOutcome_maxHopsExceeded h with hfound | ⟨distance, bound, hdistance, hbound, hlt⟩
    · refine Or.inl ⟨fun htransit => ?_, hfound⟩
      exact findCandidates_failure_ne htransit hfound
    · exact Or.inr ⟨distance, bound, hbound, hlt, structuralHopDistance_spec.1 distance hdistance⟩
  · unfold plannedOutcome at h
    split_ifs at h <;> cases h

end Plan

/-- **Structural hop distance**: it is the least number of hops of a directed path over the links
that the structural constraints leave, and there is none exactly when there is no such path. Where a
call gives the hop bound as its primary failure, and it is not the search for the required transit
that failed for it, every such path between its endpoints needs more hops than the bound. -/
theorem structuralHopDistance_exact (snapshot : FabricSnapshot) (request : PlanningRequest)
    (source destination : NodeId) :
    (∀ n, structuralHopDistance snapshot source destination request = some n ↔
      IsLeast {n | ∃ path, IsStructuralPath snapshot request.constraints source destination path ∧
        path.length = n} n) ∧
    (structuralHopDistance snapshot source destination request = none ↔
      ¬ ∃ path, IsStructuralPath snapshot request.constraints source destination path) ∧
    structuralHopDistance snapshot source source request = some 0 ∧
    ∀ (sha : List UInt8 → Sha256Digest) (capture : PlanCapture) (p : Passes sha capture request)
      (compared published : RuntimeState),
      (RuntimeState.planResult sha capture request compared published).primaryFailure =
        some .maxHopsExceeded →
      (request.constraints.requiredTransit ≠ [] ∧ p.found.failure = some .maxHopsExceeded) ∨
        ∃ bound, request.constraints.maxHops = some bound ∧
          (∃ path, IsStructuralPath p.snapshot request.constraints p.source.node.id
            p.destination.node.id path) ∧
          ∀ path, IsStructuralPath p.snapshot request.constraints p.source.node.id
            p.destination.node.id path → bound.value < path.length := by
  obtain ⟨hsome, hnone⟩ := @structuralHopDistance_spec snapshot request source destination
  refine ⟨fun n => ⟨hsome n, fun hleast => ?_⟩, ⟨fun h => ?_, fun h => ?_⟩, ?_, ?_⟩
  · cases hdistance : structuralHopDistance snapshot source destination request with
    | none =>
      have hempty : n ∈ structuralHopCounts snapshot request.constraints source destination :=
        hleast.1
      rw [hnone hdistance] at hempty
      exact absurd hempty (Set.notMem_empty n)
    | some m => rw [(hsome m hdistance).unique hleast]
  · rintro ⟨path, hpath⟩
    exact (hnone h ▸ Set.notMem_empty path.length) ⟨path, hpath, rfl⟩
  · cases hdistance : structuralHopDistance snapshot source destination request with
    | none => rfl
    | some m =>
      obtain ⟨path, hpath, -⟩ := (hsome m hdistance).1
      exact absurd ⟨path, hpath⟩ h
  · rw [structuralHopDistance, if_pos rfl]
  · intro sha capture p compared published h
    rw [RuntimeState.planResult_primaryFailure p.computePlan_eq] at h
    refine (p.structural_of_maxHopsExceeded h).imp_right ?_
    rintro ⟨distance, bound, hbound, hlt, ⟨path, hpath, -⟩, hlower⟩
    exact ⟨bound, hbound, ⟨path, hpath⟩, fun path hpath => hlt.trans_le (hlower ⟨path, hpath, rfl⟩)⟩

/-! ### Two hops where one is allowed -/

/-- A request for a path of one hop at most. -/
def oneHopRequest (source destination : UInt8) : PlanningRequest :=
  { PlanningRequest.between source destination with
    constraints :=
      { id := .tagged 0 1
        maxHops := some (.ofNat 1) } }

/-- Over two pairs of parallel links the planner gives the hop bound as its cause, and every path
has more than one hop. -/
theorem structuralHopDistance_exact_line :
    structuralHopDistance doubledLinks (.tagged 0 1) (.tagged 0 3) (oneHopRequest 1 3) = some 2 ∧
    ∃ p : Passes constantHash (captureOver doubledLinks) (oneHopRequest 1 3),
      ∀ path, IsStructuralPath p.snapshot (oneHopRequest 1 3).constraints p.source.node.id
        p.destination.node.id path → 1 < path.length := by
  refine ⟨by decide +kernel, ?_⟩
  have hok : (computePlan constantHash (captureOver doubledLinks) (oneHopRequest 1 3)).isOk =
      true := by decide +kernel
  obtain ⟨p⟩ : Nonempty (Passes constantHash (captureOver doubledLinks) (oneHopRequest 1 3)) := by
    cases hplan : computePlan constantHash (captureOver doubledLinks) (oneHopRequest 1 3) with
    | error result =>
      rw [hplan] at hok
      cases hok
    | ok computed =>
      obtain ⟨p, -⟩ := computePlan_eq_ok hplan
      exact ⟨p⟩
  obtain ⟨-, -, -, hcause⟩ := structuralHopDistance_exact doubledLinks (oneHopRequest 1 3)
    (.tagged 0 1) (.tagged 0 3)
  have hfailure : (RuntimeState.planResult constantHash (captureOver doubledLinks)
      (oneHopRequest 1 3) (runtimeOver doubledLinks)
      (runtimeOver doubledLinks)).primaryFailure = some .maxHopsExceeded := by decide +kernel
  refine ⟨p, ?_⟩
  rcases hcause _ _ p _ _ hfailure with ⟨htransit, -⟩ | ⟨bound, hbound, -, hlt⟩
  · exact absurd rfl htransit
  · rw [← Option.some.inj hbound] at hlt
    exact hlt

end PathPlanner
