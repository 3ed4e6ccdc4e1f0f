import PathPlanner.Plan.Result
import PathPlanner.Search.Enumerate
import PathPlanner.View.Build

/-!
# Computing a plan

The part of `PlannerRuntime::Plan` between the capture of the evidence and the comparison with the
publication sequence: it reads only what was captured. A request is checked and its endpoints are
resolved, a view is built and its paths are enumerated, the candidates are ranked and shown to the
Path Authority, and a status is chosen.

## Main definitions

* `PlanCapture`: what a call captures under the lock
* `checkRequest`, `resolveEndpoint`: the refusals before planning
* `findCandidates`, `rankCandidates`, `validateCandidates`: the stages of planning
* `structuralHopDistance`, `primaryFailure`, `statusForFailure`: why there is no candidate
* `computePlan`: the whole computation; an error is a result that is returned unpublished
-/

namespace PathPlanner

open SortedList

/-- The answers of a Path Authority during one call, by the number of the question. -/
abbrev PathAuthority := ℕ → CandidatePath → EvidenceVector → AuthorityValidation

/-- What `Plan` captures under the lock. -/
structure PlanCapture where
  limits : ResourceLimits
  snapshot : Option FabricSnapshot
  publishSequence : PlanPublishSequence
  epoch : FabricEpoch
  authority : Option PathAuthority

/-- A result that ends with a refusal. -/
def PlanningResult.refuse (result : PlanningResult) (status : PlanStatus) (code : DiagnosticCode)
    (detail : String) : PlanningResult :=
  { result with
    status := status
    primaryFailure := some code
    explanations := result.explanations ++ [⟨code, detail⟩] }

/-! ## Refusals -/

/-- The expectations of a request against the captured snapshot. -/
def checkExpectations (request : PlanningRequest) (snapshot : FabricSnapshot) :
    Except PlanningResult Unit :=
  if request.expectEpoch ∧ request.expectedEpoch ≠ snapshot.generations.epoch then
    .error (PlanningResult.refuse {} .epochStale .epochMismatch
      ("request expects fabric epoch " ++ request.expectedEpoch.toString ++
        " but the captured snapshot carries " ++ snapshot.generations.epoch.toString))
  else if request.expectTopology ∧ request.expectedTopology ≠ snapshot.generations.topology then
    .error (PlanningResult.refuse {} .topologyStale .topologyGenerationMismatch
      ("request expects topology generation " ++ request.expectedTopology.toString ++
        " but the captured snapshot carries " ++ snapshot.generations.topology.toString))
  else if request.expectSnapshot ∧ request.expectedSnapshot ≠ snapshot.id then
    .error (PlanningResult.refuse {} .revalidationRequired .staleEvidence
      ("request expects snapshot " ++ request.expectedSnapshot.toString ++
        " but the captured snapshot is " ++ snapshot.id.toString))
  else .ok ()

/-- Whether a request bound to a coordinator epoch is fenced off. -/
def isFenced (request : PlanningRequest) (epoch : FabricEpoch) : Bool :=
  request.authority.epochBound && request.authority.coordinatorEpoch.value != epoch.value

/-- The checks up to the captured snapshot. -/
def checkRequest (capture : PlanCapture) (request : PlanningRequest) :
    Except PlanningResult FabricSnapshot :=
  match validateRequest request capture.limits with
  | some problem =>
    .error (PlanningResult.refuse {} (statusForValidationCode problem.code) problem.code
      problem.detail)
  | none =>
    if request.authority.enforceScope ∧
        ¬ hasScope request.authority.scopeMask submitPlanRequestScope then
      .error (PlanningResult.refuse {} .unauthorized .authorityScopeInsufficient
        "caller authority does not include kSubmitPlanRequest")
    else if isFenced request capture.epoch then
      .error (PlanningResult.refuse {} .epochStale .epochMismatch
        ("request carries coordinator epoch " ++ request.authority.coordinatorEpoch.toString ++
          " but the runtime epoch is " ++ capture.epoch.toString))
    else
      match capture.snapshot with
      | none =>
        .error (PlanningResult.refuse {} .revalidationRequired .snapshotNotAvailable
          "no fabric snapshot has been published to this runtime")
      | some snapshot => (checkExpectations request snapshot).map fun _ => snapshot

/-- A `ResolvedEndpoint` that is ok. -/
structure ResolvedEndpoint where
  record : EndpointRecord
  node : NodeRecord

/-- `ResolveEndpoint`. -/
def resolveEndpoint (snapshot : FabricSnapshot) (ref : EndpointRef) (isSource : Bool) :
    Except PlanningResult ResolvedEndpoint :=
  let name := if isSource then "source" else "destination"
  let unknown := if isSource then PlanStatus.sourceUnknown else .destinationUnknown
  match snapshot.findEndpoint ref.id with
  | none =>
    .error (PlanningResult.refuse {} unknown .unknownEndpoint
      (name ++ " endpoint has no published binding: " ++ ref.id.toString))
  | some record =>
    if record.endpointClass ≠ ref.endpointClass then
      .error (PlanningResult.refuse {} .unsupported .unsupportedEndpointClass
        (name ++ " endpoint class mismatch: requested " ++ ref.endpointClass.toString ++
          ", published " ++ record.endpointClass.toString))
    else if record.entityGeneration ≠ ref.generation then
      .error (PlanningResult.refuse {} (if isSource then .sourceStale else .destinationStale)
        .entityGenerationMismatch
        (name ++ " endpoint generation " ++ ref.generation.toString ++
          " does not match published generation " ++ record.entityGeneration.toString))
    else
      match snapshot.findNode record.node with
      | none =>
        .error (PlanningResult.refuse {} unknown .unknownEndpoint
          (name ++ " endpoint resolves to an unknown node"))
      | some node => .ok ⟨record, node⟩

/-! ## Candidates -/

/-- `max_hops`: without one there is no hop bound. -/
def ConstraintSet.hopBound (constraints : ConstraintSet) : ℕ :=
  match constraints.maxHops with
  | some hops => hops.value
  | none => noHopBound

theorem ConstraintSet.hopBound_le (constraints : ConstraintSet) :
    constraints.hopBound ≤ noHopBound := by
  unfold hopBound
  split
  · next hops _ => exact Nat.le_sub_one_of_lt hops.lt
  · exact le_rfl

/-- The candidates of an enumeration, and what is kept of its outcome. -/
structure Enumerated where
  candidates : List Candidate := []
  truncated : Bool := false
  failure : Option DiagnosticCode := none
  detail : String := ""
  resourceLimit : Bool := false
  stats : PlannerStatistics := {}

variable (sha : List UInt8 → Sha256Digest)

/-- The candidate of a raw path, unless it has no cost or is not a simple well-formed path. -/
def candidateOf (view : PlanningView) (raw : RawPath) : Option Candidate :=
  let path := buildCandidatePath view raw
  match view.computeRawPathCost raw with
  | none => none
  | some cost =>
    if !path.isWellFormed || !path.isSimple then none
    else some { id := path.id sha, path, cost }

/-- The options of the enumeration. -/
def enumerationOptions (limits : ResourceLimits) (request : PlanningRequest) (built : BuiltView) :
    EnumerationOptions :=
  let memberLimit := request.constraints.maxMembersPerFailureDomain.isSome
  { sourceView := built.sourceView
    destinationView := built.destinationView
    maxCandidates := request.maxCandidates.toNat
    maxHops := request.constraints.hopBound
    maxHops_le := request.constraints.hopBound_le
    domainMemberLimitActive := memberLimit
    enumerationCeiling :=
      if memberLimit then max request.maxCandidates.toNat limits.maxEnumerationCandidates.toNat
      else request.maxCandidates.toNat }

/-- The work budget of a call. -/
def initialWork (limits : ResourceLimits) : Work where
  budget :=
    { statesRemaining := limits.maxExpandedStates.toNat
      pushesRemaining := limits.maxQueueEntries.toNat
      spurRemaining := limits.maxSpurSearches.toNat }
  stats := {}

/-- The branch that enumerates paths. -/
def enumerateCandidates (limits : ResourceLimits) (request : PlanningRequest) (built : BuiltView) :
    Enumerated :=
  let (enumeration, work) := enumerateCandidatePaths built.view request
    (enumerationOptions limits request built) (initialWork limits)
  let found : Enumerated :=
    { candidates :=
        if enumeration.ok || enumeration.resourceLimit then
          enumeration.paths.filterMap (candidateOf sha built.view)
        else []
      truncated := enumeration.truncated
      stats := work.stats }
  let found :=
    if enumeration.ok then found
    else { found with
      failure := some enumeration.failure
      detail := enumeration.detail
      resourceLimit := enumeration.resourceLimit }
  -- an exhausted budget is a resource limit even when paths were found before
  if work.budget.exhausted then
    { found with
      resourceLimit := true
      failure := some (found.failure.getD .workBudgetExhausted)
      detail := "deterministic work budget exhausted" }
  else found

/-- The candidates: the zero-hop path when the endpoints share a node and no transit is required,
else those of the enumeration. -/
def findCandidates (limits : ResourceLimits) (request : PlanningRequest) (built : BuiltView) :
    Enumerated :=
  let identityRequest := built.sourceView = built.destinationView
  let transitRequested := !request.constraints.requiredTransit.isEmpty
  if identityRequest ∧ !transitRequested ∧ request.policy.allowZeroHopSelfPath then
    let zeroHop : RawPath := { nodes := [built.sourceView], adjacency := [] }
    let path := buildCandidatePath built.view zeroHop
    { candidates := ((built.view.computeRawPathCost zeroHop).map fun cost =>
        { id := path.id sha, path, cost }).toList }
  else if identityRequest ∧ !transitRequested then
    { failure := some .zeroHopSelfPathDisallowed
      detail :=
        "source and destination resolve to the same node and zero-hop self paths are disabled" }
  else enumerateCandidates sha limits request built

/-! ## Ranking -/

/-- The candidates in the order of the ranking, without repeated identities, at most `limit`. -/
def sortCandidates (limit : ℕ) (candidates : List Candidate) : List Candidate :=
  ((candidates.mergeSort fun lhs rhs => !ranksBefore rhs lhs).destutter
    fun lhs rhs => lhs.id ≠ rhs.id).take limit

/-- The rank at a position. -/
def rankAt (index : ℕ) : CandidateRank := .ofNat (index + 1)

/-- The candidates numbered in their order. -/
def numberCandidates (candidates : List Candidate) : List Candidate :=
  candidates.mapIdx fun index candidate => { candidate with rank := rankAt index }

/-- The candidates with the evidence, the currentness and the provenance of the call. -/
def describeCandidates (snapshot : FabricSnapshot) (request : PlanningRequest)
    (evidence : EvidenceVector) (provisional : Bool) (candidates : List Candidate) :
    List Candidate :=
  candidates.map fun candidate =>
    { candidate with
      evidence := evidence
      currentness := if provisional then .revalidationRequired else .current
      provenance :=
        { candidate.provenance with
          constraintSet := request.constraints.id
          constraintGeneration := request.constraints.generation
          policyGeneration := request.policy.generation
          evidenceSource := snapshot.evidenceSource
          planningRuleVersion := planningRuleVersion
          pathEncodingVersion := pathEncodingVersion }
      notes :=
        if provisional then candidate.notes ++ [.nonCurrentCandidate] else candidate.notes }

/-- The candidates of a call, ranked and described. -/
def rankCandidates (snapshot : FabricSnapshot) (request : PlanningRequest)
    (evidence : EvidenceVector) (provisional : Bool) (candidates : List Candidate) :
    List Candidate :=
  describeCandidates snapshot request evidence provisional
    (numberCandidates (sortCandidates request.maxCandidates.toNat candidates))

/-! ## Path Authority -/

/-- The answer to one question, in the list of the candidates that stay and the flag that one was
rejected. -/
def recordVerdict (mode : AuthorityValidationMode) (candidate : Candidate)
    (verdict : AuthorityValidation) (state : List Candidate × Bool) : List Candidate × Bool :=
  let candidate := { candidate with authority := verdict }
  match verdict with
  | .validated => (state.1 ++ [candidate], state.2)
  | .rejected => (state.1, true)
  | .unavailable | .notRequested =>
    let candidate :=
      { candidate with notes := candidate.notes ++ [.authorityValidationUnavailable] }
    (if mode = .bestEffort then state.1 ++ [candidate] else state.1, state.2)

/-- The loop that asks the authority about each candidate. -/
def askAuthority (authority : PathAuthority) (mode : AuthorityValidationMode)
    (evidence : EvidenceVector) (candidates : List Candidate) : List Candidate × Bool :=
  candidates.zipIdx.foldl (fun state (candidate, question) =>
    recordVerdict mode candidate (authority question candidate.path evidence) state) ([], false)

/-- The step of `Plan` that consults the Path Authority: the candidates that stay, or a refusal. -/
def validateCandidates (authority : Option PathAuthority) (mode : AuthorityValidationMode)
    (view : PlanningView) (truncated : Bool) (result : PlanningResult)
    (candidates : List Candidate) : Except PlanningResult (List Candidate) :=
  if mode = .none ∨ candidates.isEmpty then .ok candidates
  else
    match authority with
    | none =>
      if mode = .required then
        .error (result.refuse .unsupported .authorityValidationUnavailable
          "authority validation is required but no Path Authority port is configured")
      else
        .ok (candidates.map fun candidate =>
          { candidate with
            authority := .unavailable
            notes := candidate.notes ++ [.authorityValidationUnavailable] })
    | some authority =>
      let (validated, rejectedAny) := askAuthority authority mode result.evidence candidates
      if validated.isEmpty && rejectedAny then
        .error { result.refuse .revalidationRequired .authorityValidationRejected
            "Path Authority rejected every computed candidate path" with
          rejections := view.rejections.render
          truncated := truncated }
      else .ok (numberCandidates validated)

/-! ## Why there is no candidate -/

/-- The out-neighbours of each node over the links that the constraints leave, by position. -/
def structuralNeighbours (snapshot : FabricSnapshot) (request : PlanningRequest) :
    List (List ℕ) :=
  let forbiddenNodes := sortBy id request.constraints.forbiddenNodes
  let forbiddenLinks := sortBy id request.constraints.forbiddenLinks
  let indexOf (id : NodeId) : Option ℕ := snapshot.nodes.findIdx? (·.id = id)
  snapshot.nodes.map fun node =>
    snapshot.edges.filterMap fun edge =>
      if edge.layer ≠ request.constraints.layer then none
      else if binarySearch forbiddenLinks edge.id then none
      else if binarySearch forbiddenNodes edge.source || binarySearch forbiddenNodes edge.target then
        none
      else if edge.source = node.id then indexOf edge.target else none

/-- The scan of the out-neighbours of a node at distance `d`. -/
def discoverNeighbours (d : ℕ) (neighbours : List ℕ) (state : List ℕ × List (Option ℕ)) :
    List ℕ × List (Option ℕ) :=
  neighbours.foldl (fun (queue, distance) next =>
    match distance.getD next none with
    | none => (queue ++ [next], distance.set next (some (d + 1)))
    | some _ => (queue, distance)) state

/-- The breadth-first loop, from a position in the queue. -/
def structuralSearch (neighbours : List (List ℕ)) (destination : ℕ) :
    ℕ → ℕ → List ℕ × List (Option ℕ) → Option ℕ
  | 0, _, _ => none
  | fuel + 1, head, (queue, distance) =>
    match queue[head]? with
    | none => none
    | some node =>
      let d := (distance.getD node none).getD 0
      if node = destination then some d
      else
        structuralSearch neighbours destination fuel (head + 1)
          (discoverNeighbours d (neighbours.getD node []) (queue, distance))

/-- `StructuralHopDistance`; a node enters the queue once, so the loop ends with its fuel. -/
def structuralHopDistance (snapshot : FabricSnapshot) (source destination : NodeId)
    (request : PlanningRequest) : Option ℕ :=
  if source = destination then some 0
  else
    match snapshot.nodes.findIdx? (·.id = source), snapshot.nodes.findIdx? (·.id = destination) with
    | some s, some d =>
      structuralSearch (structuralNeighbours snapshot request) d (snapshot.nodes.length + 1) 0
        ([s], (List.replicate snapshot.nodes.length none).set s (some 0))
    | _, _ => none

/-- The exclusions that explain missing connectivity, by precedence. -/
def structuralCauses : List DiagnosticCode :=
  [.forbiddenLink, .forbiddenPort, .forbiddenNode, .layerMismatch]

/-- The exclusions that explain why connected endpoints have no path, by precedence. -/
def exclusionCauses : List DiagnosticCode :=
  [.linkStateDown, .linkStateFaulted, .linkStateRetired, .linkStateRevalidationRequired,
    .linkStateUnknown, .linkStateDegradedDisallowed, .portAdminDisabled, .portDraining,
    .portMaintenance, .portRetired, .portSuperseded, .portRevalidationRequired, .portUnknown,
    .costOverflow, .capabilityUnknown, .capabilityInsufficient, .failureDomainForbidden,
    .failureDomainUnknown, .failureDomainClassForbidden, .failureDomainMemberLimitExceeded,
    .forbiddenNode, .forbiddenLink, .forbiddenPort]

/-- `PrimaryFailure`. -/
def primaryFailure (rejections : RejectionLog) (structuralReachable : Bool) : DiagnosticCode :=
  let causes := if structuralReachable then exclusionCauses else structuralCauses
  (causes.find? rejections.contains).getD .noStructuralPath

/-- `StatusForFailure`. -/
def statusForFailure : DiagnosticCode → PlanStatus
  | .requiredNodeMissing | .requiredAnySetUnsatisfied | .maxHopsExceeded
  | .zeroHopSelfPathDisallowed | .failureDomainMemberLimitExceeded => .constraintUnsatisfied
  | .costOverflow | .workBudgetExhausted | .constraintCountExceeded => .resourceLimit
  | .unsupportedRequest => .unsupported
  | _ => .noPath

/-- The outcome of a call without a candidate. -/
def emptyOutcome (snapshot : FabricSnapshot) (request : PlanningRequest) (view : PlanningView)
    (found : Enumerated) (result : PlanningResult) : PlanningResult :=
  let distance := structuralHopDistance snapshot result.sourceNode result.destinationNode request
  let hopBoundExceeded :=
    match distance, request.constraints.maxHops with
    | some d, some hops => decide (d > hops.value)
    | _, _ => false
  let hopExplanation : ExplanationEntry :=
    ⟨.maxHopsExceeded, "the shortest structural path needs " ++ (distance.getD 0).repr ++
      " hops, which exceeds max_hops=" ++ (request.constraints.maxHops.elim "" (·.toString))⟩
  let (primary, explanations) :=
    match found.failure.filter (· ≠ .noStructuralPath) with
    | some failure => (failure, result.explanations)
    | none =>
      if hopBoundExceeded then (.maxHopsExceeded, result.explanations ++ [hopExplanation])
      else (primaryFailure view.rejections distance.isSome, result.explanations)
  { result with
    status := if found.resourceLimit then .resourceLimit else statusForFailure primary
    primaryFailure := some primary
    explanations :=
      if found.detail = "" then explanations else explanations ++ [⟨primary, found.detail⟩] }

/-- The outcome of a call with candidates. -/
def plannedOutcome (provisional truncated : Bool) (result : PlanningResult) : PlanningResult :=
  if truncated then
    { result with
      status := .truncatedByLimit
      explanations := result.explanations ++ [⟨.truncatedByLimit,
        "candidate enumeration stopped at the configured enumeration ceiling"⟩] }
  else { result with status := if provisional then .revalidationRequired else .planned }

/-! ## The computation -/

/-- What a call has computed before it compares the publication sequence. -/
structure ComputedPlan where
  snapshot : FabricSnapshot
  result : PlanningResult
  stats : PlannerStatistics

/-- The result of a call when its endpoints are resolved. -/
def resolvedResult (capture : PlanCapture) (request : PlanningRequest) (snapshot : FabricSnapshot)
    (source destination : ResolvedEndpoint) : PlanningResult where
  sourceEndpoint := source.record.id
  destinationEndpoint := destination.record.id
  sourceNode := source.node.id
  destinationNode := destination.node.id
  evidence := { snapshot.evidence with publishSequence := capture.publishSequence }
  requestedCandidates := request.maxCandidates
  diagnosticMode := decide (request.mode = .diagnosticNonCurrent)

/-- The view of a call, or the result that it cannot be built. -/
def buildView (capture : PlanCapture) (request : PlanningRequest) (snapshot : FabricSnapshot)
    (result : PlanningResult) : Except PlanningResult BuiltView :=
  match buildPlanningView snapshot request capture.limits result.sourceNode
      result.destinationNode with
  | .error failure =>
    .error ({ result with
      explanations := result.explanations ++ failure.explanations }.refuse .constraintUnsatisfied
        failure.fatal failure.detail)
  | .ok built => .ok built

/-- The candidates of a call before the Path Authority sees them. -/
def rankedCandidates (request : PlanningRequest) (snapshot : FabricSnapshot) (built : BuiltView)
    (evidence : EvidenceVector) (found : Enumerated) : List Candidate :=
  rankCandidates snapshot request evidence built.view.provisional found.candidates

/-- The result that is compared and published. -/
def finishResult (request : PlanningRequest) (snapshot : FabricSnapshot) (built : BuiltView)
    (found : Enumerated) (result : PlanningResult) (candidates : List Candidate) :
    PlanningResult :=
  let result := { result with truncated := found.truncated }
  let outcome :=
    if candidates.isEmpty then emptyOutcome snapshot request built.view found result
    else plannedOutcome built.view.provisional found.truncated result
  { outcome with
    rejections := built.view.rejections.render
    candidates := candidates }

/-- The part of `Plan` between the capture and the comparison. -/
def computePlan (capture : PlanCapture) (request : PlanningRequest) :
    Except PlanningResult ComputedPlan := do
  let snapshot ← checkRequest capture request
  let source ← resolveEndpoint snapshot request.source true
  let destination ← resolveEndpoint snapshot request.destination false
  let result := resolvedResult capture request snapshot source destination
  let built ← buildView capture request snapshot result
  let found := findCandidates sha capture.limits request built
  let candidates ← validateCandidates capture.authority request.policy.authorityValidation
    built.view found.truncated result
    (rankedCandidates request snapshot built result.evidence found)
  return {
    snapshot
    result := finishResult request snapshot built found result candidates
    stats := found.stats }

end PathPlanner
