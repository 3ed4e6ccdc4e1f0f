import PathPlanner.Core.Limits
import PathPlanner.Plan.Path
import PathPlanner.Snapshot.Records

/-!
# Planning requests

A request names its endpoints, a set of hard constraints and a policy. Validation returns the first
structural problem with its explanation; everything after it plans only from requests without one.

## Main definitions

* `CapabilityRequirement`, `TransitStage`, `ConstraintSet`, `PlanningPolicy`, `PlanningRequest`
* `validateConstraintSet`, `validatePolicy`, `validateRequest`: the first problem of each
* `statusForValidationCode`: the status a problem is reported with

## Main results

* `validateRequest_candidates`: an accepted request asks for some candidates within the ceiling
* `validateRequest_maxHops`: its hop bound is within the configured ceiling
* `statusForValidationCode_ne`: no validation problem is reported as a plan or as a missing path
-/

namespace PathPlanner

open SortedList

/-! ## Requirements -/

/-- `EndpointRef`. -/
structure EndpointRef where
  id : EndpointId
  endpointClass : EndpointClass := .endpoint
  generation : EntityGeneration := default

/-- `CapabilityScope`. -/
inductive CapabilityScope
  | everyNode
  | everyLink
  | everyPort
  | sourceNode
  | destinationNode
  | undeclared (raw : UInt32) (h : raw = 0 ∨ raw > 5)
  deriving DecidableEq

/-- The numeric value of a scope. -/
def CapabilityScope.value : CapabilityScope → ℕ
  | everyNode => 1
  | everyLink => 2
  | everyPort => 3
  | sourceNode => 4
  | destinationNode => 5
  | undeclared raw _ => raw.toNat

/-- `kCapabilityScopeNames`. -/
def capabilityScopeNames : List (String × ℕ) :=
  [("EVERY_NODE", 1), ("EVERY_LINK", 2), ("EVERY_PORT", 3), ("SOURCE_NODE", 4),
    ("DESTINATION_NODE", 5)]

/-- `CapabilityComparator`. -/
inductive CapabilityComparator
  | atLeast
  | atMost
  | equal
  | undeclared (raw : UInt32) (h : raw = 0 ∨ raw > 3)
  deriving DecidableEq

/-- The numeric value of a comparator. -/
def CapabilityComparator.value : CapabilityComparator → ℕ
  | atLeast => 1
  | atMost => 2
  | equal => 3
  | undeclared raw _ => raw.toNat

/-- `kCapabilityComparatorNames`. -/
def capabilityComparatorNames : List (String × ℕ) :=
  [("AT_LEAST", 1), ("AT_MOST", 2), ("EQUAL", 3)]

/-- `CapabilityRequirement`. -/
structure CapabilityRequirement where
  capability : CapabilityId
  scope : CapabilityScope := .everyLink
  comparator : CapabilityComparator := .atLeast
  value : CapabilityValue

/-- `CapabilityRequirement::SatisfiedBy`. -/
def CapabilityRequirement.satisfiedBy (requirement : CapabilityRequirement)
    (observed : CapabilityValue) : Bool :=
  match requirement.comparator with
  | .atLeast => observed ≥ requirement.value
  | .atMost => observed ≤ requirement.value
  | .equal => observed = requirement.value
  | .undeclared _ _ => false

/-- `TransitKind`. -/
inductive TransitKind
  | exact
  | anyOf
  | undeclared (raw : UInt32) (h : raw = 0 ∨ raw > 2)
  deriving DecidableEq

/-- `TransitStage`. -/
structure TransitStage where
  kind : TransitKind := .exact
  alternatives : List NodeId

/-! ## Constraints and policy -/

/-- `ConstraintSet`. -/
structure ConstraintSet where
  id : ConstraintSetId
  generation : ConstraintGeneration := default
  layer : PathLayer := .physical
  forbiddenNodes : List NodeId := []
  forbiddenLinks : List LinkId := []
  forbiddenPorts : List PortId := []
  forbiddenFailureDomains : List FailureDomainId := []
  forbiddenFailureDomainClasses : List FailureDomainClass := []
  requiredTransit : List TransitStage := []
  requiredCapabilities : List CapabilityRequirement := []
  maxHops : Option HopCount := none
  maxMembersPerFailureDomain : Option UInt32 := none
  failClosedOnUnknownDomains : Bool := true

/-- `ConstraintSet::EntryCount`. -/
def ConstraintSet.entryCount (c : ConstraintSet) : ℕ :=
  c.forbiddenNodes.length + c.forbiddenLinks.length + c.forbiddenPorts.length +
    c.forbiddenFailureDomains.length + c.forbiddenFailureDomainClasses.length +
    c.requiredTransit.length + c.requiredCapabilities.length

/-- `AuthorityValidationMode`. -/
inductive AuthorityValidationMode
  | none
  | bestEffort
  | required
  | undeclared (raw : UInt32) (h : raw = 0 ∨ raw > 3)
  deriving DecidableEq

/-- The numeric value of a validation mode. -/
def AuthorityValidationMode.value : AuthorityValidationMode → ℕ
  | none => 1
  | bestEffort => 2
  | required => 3
  | undeclared raw _ => raw.toNat

/-- `kAuthorityValidationModeNames`. -/
def authorityValidationModeNames : List (String × ℕ) :=
  [("NONE", 1), ("BEST_EFFORT", 2), ("REQUIRED", 3)]

/-- `PlanningPolicy`. -/
structure PlanningPolicy where
  generation : PolicyGeneration := default
  costModel : CostModel := {}
  allowDegradedLinks : Bool := false
  allowDrainingPorts : Bool := false
  allowMaintenancePorts : Bool := false
  requireOperationalProof : Bool := true
  allowZeroHopSelfPath : Bool := true
  localityScope : List NodeId := []
  authorityValidation : AuthorityValidationMode := .none

/-- `CallerAuthority`. -/
structure CallerAuthority where
  scopeMask : UInt32 := 0
  publisher : PublisherId := default
  workerBoot : WorkerBootId := default
  coordinatorEpoch : CoordinatorEpoch := default
  attempt : MutationAttemptId := default
  epochBound : Bool := false
  enforceScope : Bool := false

/-- `PlanningRequest`. -/
structure PlanningRequest where
  id : PlanningRequestId
  source : EndpointRef
  destination : EndpointRef
  constraints : ConstraintSet
  policy : PlanningPolicy := {}
  maxCandidates : UInt32 := 1
  mode : PlanningMode := .standard
  authority : CallerAuthority := {}
  expectEpoch : Bool := false
  expectedEpoch : FabricEpoch := default
  expectTopology : Bool := false
  expectedTopology : TopologyGeneration := default
  expectSnapshot : Bool := false
  expectedSnapshot : SnapshotId := default

/-- A request for one path between two endpoints, without constraints. -/
def PlanningRequest.between (a b : UInt8) : PlanningRequest where
  id := .tagged 0 1
  source := { id := .tagged 0 a }
  destination := { id := .tagged 0 b }
  constraints := { id := .tagged 0 1 }

/-! ## Validation -/

/-- A failed `RequestValidation`. -/
structure RequestError where
  code : DiagnosticCode
  detail : String
  deriving DecidableEq

/-- A sequence of checks: the error of the first condition that holds. -/
def firstProblem (checks : List (Bool × RequestError)) : Option RequestError :=
  (checks.find? (·.1)).map (·.2)

theorem firstProblem_eq_none_iff {checks : List (Bool × RequestError)} :
    firstProblem checks = none ↔ ∀ check ∈ checks, check.1 = false := by
  simp [firstProblem]

/-- The checks of one transit stage. -/
def transitStageError (limits : ResourceLimits) (stage : TransitStage) : Option RequestError :=
  firstProblem [
    (stage.alternatives.isEmpty, ⟨.malformedIdentifier, "transit stage has no alternatives"⟩),
    (stage.kind = .exact ∧ stage.alternatives.length ≠ 1,
      ⟨.constraintCountExceeded, "EXACT transit stage must name exactly one node"⟩),
    (exceeds stage.alternatives.length limits.maxMembersInAnySet,
      ⟨.constraintCountExceeded, "transit stage alternative count exceeds the limit"⟩),
    (stage.alternatives.any (!·.isValid),
      ⟨.malformedIdentifier, "transit node identity is nil"⟩),
    (hasDuplicate stage.alternatives,
      ⟨.duplicateConstraintEntry, "duplicate alternative in a transit stage"⟩)]

/-- The checks of `ValidateConstraintSet` before the transit stages. -/
def forbiddenEntryError (c : ConstraintSet) (limits : ResourceLimits) : Option RequestError :=
  firstProblem [
    (!c.id.isValid, ⟨.malformedIdentifier, "constraint set identity is nil"⟩),
    (exceeds c.entryCount limits.maxConstraintsTotal,
      ⟨.constraintCountExceeded, "constraint entry count exceeds the configured limit"⟩),
    (exceeds c.forbiddenNodes.length limits.maxForbiddenIds ||
        exceeds c.forbiddenLinks.length limits.maxForbiddenIds ||
        exceeds c.forbiddenPorts.length limits.maxForbiddenIds ||
        exceeds c.forbiddenFailureDomains.length limits.maxForbiddenIds ||
        exceeds c.forbiddenFailureDomainClasses.length limits.maxForbiddenDomainClasses,
      ⟨.constraintCountExceeded, "forbidden identifier count exceeds the configured limit"⟩),
    (exceeds c.requiredTransit.length limits.maxRequiredIds,
      ⟨.constraintCountExceeded, "transit stage count exceeds the configured limit"⟩),
    (exceeds c.requiredCapabilities.length limits.maxCapabilityRequirements,
      ⟨.constraintCountExceeded, "capability requirement count exceeds the configured limit"⟩),
    (c.forbiddenNodes.any (!·.isValid),
      ⟨.malformedIdentifier, "forbidden node identity is nil"⟩),
    (c.forbiddenLinks.any (!·.isValid),
      ⟨.malformedIdentifier, "forbidden link identity is nil"⟩),
    (c.forbiddenPorts.any (!·.isValid),
      ⟨.malformedIdentifier, "forbidden port identity is nil"⟩),
    (c.forbiddenFailureDomains.any (!·.isValid),
      ⟨.malformedIdentifier, "forbidden failure domain identity is nil"⟩),
    (c.forbiddenFailureDomainClasses.any (!·.isValid),
      ⟨.malformedIdentifier, "forbidden failure domain class identity is nil"⟩),
    (hasDuplicate c.forbiddenNodes || hasDuplicate c.forbiddenLinks ||
        hasDuplicate c.forbiddenPorts || hasDuplicate c.forbiddenFailureDomains ||
        hasDuplicate c.forbiddenFailureDomainClasses,
      ⟨.duplicateConstraintEntry, "duplicate forbidden constraint entry"⟩)]

/-- The checks of `ValidateConstraintSet` after the transit stages. -/
def pathBoundError (c : ConstraintSet) (limits : ResourceLimits) : Option RequestError :=
  firstProblem [
    (c.requiredCapabilities.any (!·.capability.isValid),
      ⟨.malformedIdentifier, "capability identity is nil"⟩),
    (c.maxHops.any (fun hops => decide (hops.value > limits.maxHops.toNat)),
      ⟨.maxHopsExceeded, "max_hops exceeds the configured ceiling"⟩),
    (c.maxMembersPerFailureDomain = some 0,
      ⟨.constraintCountExceeded, "max_members_per_failure_domain must be positive"⟩)]

/-- `ValidateConstraintSet`. -/
def validateConstraintSet (c : ConstraintSet) (limits : ResourceLimits) : Option RequestError :=
  (forbiddenEntryError c limits).or <|
    (c.requiredTransit.findSome? (transitStageError limits)).or (pathBoundError c limits)

/-- `ValidatePolicy`. -/
def validatePolicy (policy : PlanningPolicy) (limits : ResourceLimits) : Option RequestError :=
  firstProblem [
    (exceeds policy.localityScope.length limits.maxForbiddenIds,
      ⟨.constraintCountExceeded, "locality scope exceeds the configured limit"⟩),
    (policy.localityScope.any (!·.isValid),
      ⟨.malformedIdentifier, "locality scope node identity is nil"⟩),
    (hasDuplicate policy.localityScope,
      ⟨.duplicateConstraintEntry, "duplicate node in locality scope"⟩),
    (policy.costModel.localityPenalty.value ≠ 0 ∧ policy.localityScope.isEmpty,
      ⟨.unsupportedRequest, "locality_penalty requires a non-empty locality_scope"⟩)]

/-- The checks of `ValidateRequest` before the constraint set. -/
def requestShapeError (request : PlanningRequest) (limits : ResourceLimits) :
    Option RequestError :=
  firstProblem [
    (!request.id.isValid, ⟨.malformedIdentifier, "planning request identity is nil"⟩),
    (!request.source.id.isValid, ⟨.malformedIdentifier, "source endpoint identity is nil"⟩),
    (!request.destination.id.isValid,
      ⟨.malformedIdentifier, "destination endpoint identity is nil"⟩),
    (request.maxCandidates = 0,
      ⟨.candidateLimitExceeded, "max_candidates must be at least 1"⟩),
    (request.maxCandidates.toNat > limits.maxCandidatesPerRequest.toNat,
      ⟨.requestedCandidatesAboveCeiling, "max_candidates exceeds the configured ceiling"⟩),
    (!isKnownEnumValue pathLayerNames request.constraints.layer.value,
      ⟨.unsupportedLayer, "unknown planning layer"⟩),
    (!isKnownEnumValue planningModeNames request.mode.value,
      ⟨.unsupportedRequest, "unknown planning mode"⟩),
    (!isKnownEnumValue authorityValidationModeNames request.policy.authorityValidation.value,
      ⟨.unsupportedRequest, "unknown authority validation mode"⟩),
    (request.constraints.requiredCapabilities.any (fun requirement =>
        !isKnownEnumValue capabilityScopeNames requirement.scope.value ||
          !isKnownEnumValue capabilityComparatorNames requirement.comparator.value),
      ⟨.unsupportedRequest, "unknown capability requirement encoding"⟩)]

/-- The checks of `ValidateRequest` after the policy. -/
def expectationError (request : PlanningRequest) : Option RequestError :=
  firstProblem [
    (request.expectTopology && request.expectedTopology.value = 0,
      ⟨.malformedIdentifier, "expected topology generation must be positive"⟩),
    (request.expectSnapshot && !request.expectedSnapshot.isValid,
      ⟨.malformedIdentifier, "expected snapshot identity is nil"⟩)]

/-- `ValidateRequest`: the first structural problem found. -/
def validateRequest (request : PlanningRequest) (limits : ResourceLimits) : Option RequestError :=
  (requestShapeError request limits).or <|
    (validateConstraintSet request.constraints limits).or <|
      (validatePolicy request.policy limits).or (expectationError request)

/-- `StatusForValidationCode`. -/
def statusForValidationCode : DiagnosticCode → PlanStatus
  | .malformedIdentifier => .malformedRequest
  | .duplicateConstraintEntry => .malformedRequest
  | .duplicateIdentifier => .malformedRequest
  | .selfLoopRejected => .malformedRequest
  | .requestedCandidatesAboveCeiling => .resourceLimit
  | .constraintCountExceeded => .resourceLimit
  | .graphTooLarge => .resourceLimit
  | .tooManyEdges => .resourceLimit
  | .workBudgetExhausted => .resourceLimit
  | .candidateLimitExceeded => .malformedRequest
  | .maxHopsExceeded => .constraintUnsatisfied
  | .unsupportedLayer => .unsupported
  | .unsupportedRequest => .unsupported
  | .unsupportedEndpointClass => .unsupported
  | _ => .malformedRequest

section Accepted

variable {request : PlanningRequest} {limits : ResourceLimits}

/-- An accepted request passes each part of the validation. -/
theorem validateRequest_eq_none_iff : validateRequest request limits = none ↔
    requestShapeError request limits = none ∧
      (forbiddenEntryError request.constraints limits = none ∧
        (∀ stage ∈ request.constraints.requiredTransit, transitStageError limits stage = none) ∧
        pathBoundError request.constraints limits = none) ∧
      validatePolicy request.policy limits = none ∧ expectationError request = none := by
  simp only [validateRequest, validateConstraintSet, Option.or_eq_none_iff,
    List.findSome?_eq_none_iff]

/-- An accepted request asks for some candidates, within the ceiling. -/
theorem validateRequest_candidates (h : validateRequest request limits = none) :
    0 < request.maxCandidates.toNat ∧
      request.maxCandidates.toNat ≤ limits.maxCandidatesPerRequest.toNat := by
  have hs := firstProblem_eq_none_iff.mp (validateRequest_eq_none_iff.mp h).1
  simp only [List.forall_mem_cons, decide_eq_false_iff_not] at hs
  refine ⟨Nat.pos_of_ne_zero fun he => hs.2.2.2.1 (UInt32.toNat_inj.mp he), ?_⟩
  exact not_lt.mp hs.2.2.2.2.1

/-- The hop bound of an accepted request is within the configured ceiling. -/
theorem validateRequest_maxHops (h : validateRequest request limits = none) {hops : HopCount}
    (hh : request.constraints.maxHops = some hops) : hops.value ≤ limits.maxHops.toNat := by
  have hs := firstProblem_eq_none_iff.mp (validateRequest_eq_none_iff.mp h).2.1.2.2
  simp only [List.forall_mem_cons, hh, Option.any_some, decide_eq_false_iff_not] at hs
  exact not_lt.mp hs.2.1

/-- The validation mode of an accepted request is declared. -/
theorem validateRequest_authorityMode (h : validateRequest request limits = none) :
    request.policy.authorityValidation = .none ∨ request.policy.authorityValidation = .bestEffort ∨
      request.policy.authorityValidation = .required := by
  have hs := firstProblem_eq_none_iff.mp (validateRequest_eq_none_iff.mp h).1
  simp only [List.forall_mem_cons, Bool.not_eq_false'] at hs
  have hknown := hs.2.2.2.2.2.2.2.1
  cases hmode : request.policy.authorityValidation with
  | none => exact Or.inl rfl
  | bestEffort => exact Or.inr (Or.inl rfl)
  | required => exact Or.inr (Or.inr rfl)
  | undeclared raw hraw =>
    rw [hmode] at hknown
    obtain ⟨entry, he, hvalue⟩ := exists_of_isKnownEnumValue hknown
    change entry.2 = raw.toNat at hvalue
    simp only [authorityValidationModeNames, List.mem_cons, List.not_mem_nil, or_false] at he
    -- the values of the table are 1, 2 and 3
    rcases hraw with rfl | hlt
    · rcases he with rfl | rfl | rfl <;> cases hvalue
    · have hlt' : 3 < raw.toNat := UInt32.lt_iff_toNat_lt.mp hlt
      rcases he with rfl | rfl | rfl <;> omega

/-- No validation problem is reported as a plan or as a missing path. -/
theorem statusForValidationCode_ne (code : DiagnosticCode) :
    statusForValidationCode code ≠ .planned ∧ statusForValidationCode code ≠ .noPath ∧
      statusForValidationCode code ≠ .truncatedByLimit := by
  cases code <;> decide

/-- No validation problem is reported with candidates. -/
theorem carriesCandidates_statusForValidationCode (code : DiagnosticCode) :
    (statusForValidationCode code).carriesCandidates = false := by
  cases code <;> decide

end Accepted

end PathPlanner
