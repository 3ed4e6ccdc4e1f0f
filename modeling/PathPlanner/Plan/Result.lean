import PathPlanner.Plan.Path
import PathPlanner.Plan.Request
import PathPlanner.View.RejectionLog

/-!
# Planning results and plans

A planning result is what a caller receives; a plan is the immutable value made from it, with a
digest of its semantic fields and the subjects it depends on. A stored record keeps the fields of a
plan that survive a restart.

## Main definitions

* `PlanningResult`, `PathPlan`, `makePathPlan`
* `PathPlan.computeSemanticDigest`, `PathPlan.computePlanId`
* `collectPlanDependencies`: the nodes, links and ports of the candidates
* `StoredPlanRecord`, `toStoredRecord`, `fromStoredRecord`
* `IsUnproven`: the plans whose currentness is not proven
-/

namespace PathPlanner

open SortedList

/-- `PlanningResult`. -/
structure PlanningResult where
  status : PlanStatus := .noPath
  primaryFailure : Option DiagnosticCode := none
  sourceEndpoint : EndpointId := default
  destinationEndpoint : EndpointId := default
  sourceNode : NodeId := default
  destinationNode : NodeId := default
  candidates : List Candidate := []
  rejections : List RejectionExplanation := []
  explanations : List ExplanationEntry := []
  evidence : EvidenceVector := {}
  planId : PathPlanId := default
  planningGeneration : PlanningGeneration := default
  semanticDigest : Sha256Digest := default
  requestedCandidates : UInt32 := 0
  truncated : Bool := false
  diagnosticMode : Bool := false

/-- `PathPlan`. -/
structure PathPlan where
  id : PathPlanId := default
  request : PlanningRequestId := default
  generation : PlanningGeneration := default
  publishSequence : PlanPublishSequence := default
  status : PlanStatus := .noPath
  source : NodeId := default
  destination : NodeId := default
  layer : PathLayer := .physical
  evidence : EvidenceVector := {}
  policyGeneration : PolicyGeneration := default
  constraintSet : ConstraintSetId := default
  constraintGeneration : ConstraintGeneration := default
  diagnosticMode : Bool := false
  currentnessProven : Bool := true
  candidates : List Candidate := []
  semanticDigest : Sha256Digest := default

namespace PathPlan

/-- The fields of a candidate that enter the digest. -/
def encodeCandidate (writer : ByteWriter) (candidate : Candidate) : ByteWriter :=
  let writer := ((writer.id candidate.id).u64 candidate.cost.total.value).u32
    candidate.cost.hops.value
  let writer := (writer.u64 candidate.cost.staticCost.value).u64
    candidate.cost.degradedPenalty.value
  (writer.u64 candidate.cost.localityPenalty.value).u32 candidate.rank.value

/-- `PathPlan::EncodeSemantic`. -/
def encodeSemantic (plan : PathPlan) (writer : ByteWriter) : ByteWriter :=
  let writer := (writer.u32 planningRuleVersion).u32 planDigestSchemeVersion
  let writer := ((writer.id plan.request).id plan.source).id plan.destination
  let writer := ((writer.u32 plan.layer.value).u32 plan.status.value).bool plan.diagnosticMode
  let writer := (plan.evidence.encode writer).u64 plan.policyGeneration.value
  let writer := (writer.id plan.constraintSet).u64 plan.constraintGeneration.value
  plan.candidates.foldl encodeCandidate (writer.varU64 plan.candidates.length)

variable (sha : List UInt8 → Sha256Digest)

/-- `PathPlan::ComputeSemanticDigest`, with `sha` for `Sha256::Hash`. -/
def computeSemanticDigest (plan : PathPlan) : Sha256Digest :=
  let writer := plan.encodeSemantic (ByteWriter.new (4096 + plan.candidates.length * 256))
  if writer.overflowed then Sha256Digest.zero else sha writer.data

/-- `PathPlan::ComputePlanId`. -/
def computePlanId (plan : PathPlan) : PathPlanId :=
  let digest := plan.computeSemanticDigest sha
  if digest.isZero then default else FixedId.fromDigest digest

end PathPlan

/-- `MakePathPlan`. -/
def makePathPlan (sha : List UInt8 → Sha256Digest) (request : PlanningRequest)
    (result : PlanningResult) (sequence : PlanPublishSequence) : PathPlan :=
  let diagnosticMode := decide (request.mode = .diagnosticNonCurrent)
  let plan : PathPlan :=
    { request := request.id
      evidence := result.evidence
      generation := result.planningGeneration
      publishSequence := sequence
      status := result.status
      source := result.sourceNode
      destination := result.destinationNode
      layer := request.constraints.layer
      policyGeneration := request.policy.generation
      constraintSet := request.constraints.id
      constraintGeneration := request.constraints.generation
      diagnosticMode := diagnosticMode
      candidates := result.candidates
      currentnessProven := !diagnosticMode }
  { plan with
    semanticDigest := plan.computeSemanticDigest sha
    id := plan.computePlanId sha }

section MakePathPlan

variable (sha : List UInt8 → Sha256Digest) (request : PlanningRequest) (result : PlanningResult)
  (sequence : PlanPublishSequence)

@[simp] theorem makePathPlan_evidence :
    (makePathPlan sha request result sequence).evidence = result.evidence := rfl

@[simp] theorem makePathPlan_candidates :
    (makePathPlan sha request result sequence).candidates = result.candidates := rfl

@[simp] theorem makePathPlan_diagnosticMode :
    (makePathPlan sha request result sequence).diagnosticMode =
      decide (request.mode = .diagnosticNonCurrent) := rfl

@[simp] theorem makePathPlan_currentnessProven :
    (makePathPlan sha request result sequence).currentnessProven =
      !decide (request.mode = .diagnosticNonCurrent) := rfl

end MakePathPlan

/-! ## Dependencies -/

/-- The subjects of a path: its nodes, and the link and the ports of its hops. -/
def CandidatePath.subjects (path : CandidatePath) : List SubjectKey :=
  path.nodes.map SubjectKey.forNode ++
    path.hops.flatMap fun hop =>
      [.forLink hop.link, .forPort hop.fromPort, .forPort hop.toPort]

/-- `CollectPlanDependencies`: the subjects, sorted and without repetition. -/
def collectPlanDependencies (plan : PathPlan) : List SubjectKey :=
  unique (sortBy id (plan.candidates.flatMap (·.path.subjects)))

/-! ## Stored records -/

/-- `StoredPlanRecord`. -/
structure StoredPlanRecord where
  request : PlanningRequestId := default
  plan : PathPlanId := default
  generation : PlanningGeneration := default
  publishSequence : PlanPublishSequence := default
  status : PlanStatus := .noPath
  evidence : EvidenceVector := {}
  constraintSet : ConstraintSetId := default
  constraintGeneration : ConstraintGeneration := default
  policyGeneration : PolicyGeneration := default
  source : NodeId := default
  destination : NodeId := default
  layer : PathLayer := .physical
  diagnosticMode : Bool := false
  candidates : List CandidatePath := []
  costs : List PathCost := []
  ranks : List CandidateRank := []
  semanticDigest : Sha256Digest := default

/-- `ToStoredRecord`. -/
def toStoredRecord (plan : PathPlan) : StoredPlanRecord where
  request := plan.request
  plan := plan.id
  generation := plan.generation
  publishSequence := plan.publishSequence
  status := plan.status
  evidence := plan.evidence
  constraintSet := plan.constraintSet
  constraintGeneration := plan.constraintGeneration
  policyGeneration := plan.policyGeneration
  source := plan.source
  destination := plan.destination
  layer := plan.layer
  diagnosticMode := plan.diagnosticMode
  candidates := plan.candidates.map (·.path)
  costs := plan.candidates.map (·.cost)
  ranks := plan.candidates.map (·.rank)
  semanticDigest := plan.semanticDigest

/-- `FromStoredRecord`. -/
def fromStoredRecord (sha : List UInt8 → Sha256Digest) (record : StoredPlanRecord) : PathPlan where
  request := record.request
  id := record.plan
  generation := record.generation
  publishSequence := record.publishSequence
  status := record.status
  evidence := record.evidence
  policyGeneration := record.policyGeneration
  constraintSet := record.constraintSet
  constraintGeneration := record.constraintGeneration
  source := record.source
  destination := record.destination
  layer := record.layer
  diagnosticMode := record.diagnosticMode
  -- a recovered record is never current fabric truth
  currentnessProven := false
  semanticDigest := record.semanticDigest
  candidates := (record.candidates.zip record.costs).mapIdx fun index (path, cost) =>
    { path
      id := path.id sha
      cost
      rank := record.ranks.getD index (.ofNat (index + 1))
      evidence := record.evidence
      currentness := .revalidationRequired
      authority := .notRequested }

@[simp] theorem fromStoredRecord_evidence (sha : List UInt8 → Sha256Digest)
    (record : StoredPlanRecord) : (fromStoredRecord sha record).evidence = record.evidence := rfl

/-- A plan whose currentness is not proven: it comes from a result that requires revalidation, or
from a stored record. -/
inductive IsUnproven (sha : List UInt8 → Sha256Digest) : PathPlan → Prop
  | ofResult (request : PlanningRequest) (result : PlanningResult) (sequence : PlanPublishSequence)
      (h : result.status = .revalidationRequired) :
      IsUnproven sha (makePathPlan sha request result sequence)
  | ofRecord (record : StoredPlanRecord) : IsUnproven sha (fromStoredRecord sha record)

end PathPlanner
