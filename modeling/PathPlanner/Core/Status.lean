import PathPlanner.Core.Identity

/-!
# Statuses, states and diagnostics

The enumerations that cross a representation boundary carry explicit numeric values. The
enumerations of a request come from the caller unchecked, so their types also hold the raw values
that no enumerator declares; request validation compares against the table of names.

## Main definitions

* `PlanStatus`, `Currentness`, `DiagnosticCode`: the outcome of planning
* `LinkState`, `PortState`: the consumed operational states
* `PathLayer`, `PlanningMode`, `EndpointClass`: enumerations of a request
* `currentnessSeverity`, `moreSevere`: the precedence of currentness values

## Main results

* `moreSevere_eq_current_iff`: a combination is current only when both parts are
-/

namespace PathPlanner

/-! ## Enumeration tables -/

/-- `EnumNameFromValue`: the first name with the value, empty when there is none. -/
def enumNameFromValue (table : List (String × ℕ)) (value : ℕ) : String :=
  match table.find? (fun entry => entry.2 == value) with
  | some entry => entry.1
  | none => ""

/-- `EnumName`: unknown values render as `UNKNOWN_VALUE`. -/
def enumName (table : List (String × ℕ)) (value : ℕ) : String :=
  if (enumNameFromValue table value).isEmpty then "UNKNOWN_VALUE" else enumNameFromValue table value

/-- `IsKnownEnumValue`. -/
def isKnownEnumValue (table : List (String × ℕ)) (value : ℕ) : Bool :=
  !(enumNameFromValue table value).isEmpty

/-- A known value is in the table. -/
theorem exists_of_isKnownEnumValue {table : List (String × ℕ)} {value : ℕ}
    (h : isKnownEnumValue table value = true) : ∃ entry ∈ table, entry.2 = value := by
  unfold isKnownEnumValue enumNameFromValue at h
  split at h
  · next entry hfind =>
    have hvalue := List.find?_some hfind
    exact ⟨entry, List.mem_of_find?_eq_some hfind, beq_iff_eq.mp hvalue⟩
  · cases h

/-! ## Planning outcomes -/

/-- `PlanStatus`. -/
inductive PlanStatus
  | planned
  | noPath
  | sourceUnknown
  | destinationUnknown
  | sourceStale
  | destinationStale
  | topologyStale
  | epochStale
  | constraintUnsatisfied
  | resourceLimit
  | revalidationRequired
  | malformedRequest
  | unauthorized
  | unsupported
  | truncatedByLimit
  deriving DecidableEq, Repr, Inhabited

/-- The stable numeric value of a status. -/
def PlanStatus.value : PlanStatus → ℕ
  | planned => 1
  | noPath => 2
  | sourceUnknown => 3
  | destinationUnknown => 4
  | sourceStale => 5
  | destinationStale => 6
  | topologyStale => 7
  | epochStale => 8
  | constraintUnsatisfied => 9
  | resourceLimit => 10
  | revalidationRequired => 11
  | malformedRequest => 12
  | unauthorized => 13
  | unsupported => 14
  | truncatedByLimit => 15

/-- `CarriesCandidates`. -/
def PlanStatus.carriesCandidates (status : PlanStatus) : Bool :=
  status = .planned || status = .truncatedByLimit || status = .revalidationRequired

/-- `Currentness`. -/
inductive Currentness
  | current
  | revalidationRequired
  | staleTopology
  | staleLinkState
  | stalePortState
  | staleCapability
  | staleFailureDomain
  | stalePolicy
  | staleEpoch
  | retired
  deriving DecidableEq, Repr, Inhabited

/-- `CurrentnessSeverity`: the lower the more severe. -/
def currentnessSeverity : Currentness → ℕ
  | .retired => 0
  | .staleEpoch => 1
  | .staleTopology => 2
  | .staleLinkState => 3
  | .stalePortState => 4
  | .staleCapability => 5
  | .staleFailureDomain => 6
  | .stalePolicy => 7
  | .revalidationRequired => 8
  | .current => 9

/-- `MoreSevere`. -/
def moreSevere (a b : Currentness) : Currentness :=
  if currentnessSeverity a ≤ currentnessSeverity b then a else b

/-- Folding any change onto a currentness value leaves it current only when neither changes it. -/
@[simp] theorem moreSevere_eq_current_iff {a b : Currentness} :
    moreSevere a b = .current ↔ a = .current ∧ b = .current := by
  cases a <;> cases b <;> decide

/-! ## Consumed states -/

/-- `LinkState`. -/
inductive LinkState
  | up
  | down
  | faulted
  | retired
  | revalidationRequired
  | unknown
  | degraded
  deriving DecidableEq, Repr

/-- The stable numeric value of a link state. -/
def LinkState.value : LinkState → ℕ
  | up => 1
  | down => 2
  | faulted => 3
  | retired => 4
  | revalidationRequired => 5
  | unknown => 6
  | degraded => 7

/-- `PortState`. -/
inductive PortState
  | up
  | adminDisabled
  | draining
  | maintenance
  | retired
  | superseded
  | revalidationRequired
  | unknown
  deriving DecidableEq, Repr

/-- The stable numeric value of a port state. -/
def PortState.value : PortState → ℕ
  | up => 1
  | adminDisabled => 2
  | draining => 3
  | maintenance => 4
  | retired => 5
  | superseded => 6
  | revalidationRequired => 7
  | unknown => 8

/-- `RelationshipType`. -/
inductive RelationshipType
  | directLink
  | logicalAdjacency
  | tunnelEncapsulation
  | portPairing
  deriving DecidableEq, Repr

/-- The stable numeric value of a relationship type. -/
def RelationshipType.value : RelationshipType → ℕ
  | directLink => 1
  | logicalAdjacency => 2
  | tunnelEncapsulation => 3
  | portPairing => 4

/-- `EvidenceSource`. -/
inductive EvidenceSource
  | real
  | synthetic
  | mixed
  deriving DecidableEq, Repr

/-- The stable numeric value of an evidence source. -/
def EvidenceSource.value : EvidenceSource → ℕ
  | real => 1
  | synthetic => 2
  | mixed => 3

/-- `AuthorityValidation`: the verdict of a Path Authority. -/
inductive AuthorityValidation
  | notRequested
  | validated
  | rejected
  | unavailable
  deriving DecidableEq, Repr

/-! ## Enumerations of a request -/

/-- `PathLayer`. -/
inductive PathLayer
  | physical
  | logical
  | overlay
  | tunnel
  | undeclared (raw : UInt32) (h : raw = 0 ∨ 4 < raw)
  deriving DecidableEq

/-- The numeric value of a layer. -/
def PathLayer.value : PathLayer → ℕ
  | physical => 1
  | logical => 2
  | overlay => 3
  | tunnel => 4
  | undeclared raw _ => raw.toNat

/-- `kPathLayerNames`. -/
def pathLayerNames : List (String × ℕ) :=
  [("PHYSICAL", 1), ("LOGICAL", 2), ("OVERLAY", 3), ("TUNNEL", 4)]

/-- `PlanningMode`. -/
inductive PlanningMode
  | standard
  | diagnosticNonCurrent
  | undeclared (raw : UInt32) (h : raw = 0 ∨ 2 < raw)
  deriving DecidableEq

/-- The numeric value of a planning mode. -/
def PlanningMode.value : PlanningMode → ℕ
  | standard => 1
  | diagnosticNonCurrent => 2
  | undeclared raw _ => raw.toNat

/-- `kPlanningModeNames`. -/
def planningModeNames : List (String × ℕ) := [("STANDARD", 1), ("DIAGNOSTIC_NON_CURRENT", 2)]

/-- `EndpointClass`. -/
inductive EndpointClass
  | endpoint
  | nic
  | port
  | switchAttachment
  | logicalEndpoint
  | undeclared (raw : UInt32) (h : raw = 0 ∨ 5 < raw)
  deriving DecidableEq

/-- The numeric value of an endpoint class. -/
def EndpointClass.value : EndpointClass → ℕ
  | endpoint => 1
  | nic => 2
  | port => 3
  | switchAttachment => 4
  | logicalEndpoint => 5
  | undeclared raw _ => raw.toNat

/-- `kEndpointClassNames`. -/
def endpointClassNames : List (String × ℕ) :=
  [("ENDPOINT", 1), ("NIC", 2), ("PORT", 3), ("SWITCH_ATTACHMENT", 4), ("LOGICAL_ENDPOINT", 5)]

/-- `ToString(EndpointClass)`. -/
def EndpointClass.toString (c : EndpointClass) : String := enumName endpointClassNames c.value

/-! ## Caller authority -/

/-- `AuthorityScope::kSubmitPlanRequest`. -/
def submitPlanRequestScope : UInt32 := 1

/-- `HasScope`: every bit of `scope` is set in `mask`. -/
def hasScope (mask scope : UInt32) : Bool := mask &&& scope == scope

/-! ## Diagnostics -/

/-- `DiagnosticCode`, in the order of the values `1` to `81`. -/
inductive DiagnosticCode
  | malformedIdentifier
  | duplicateIdentifier
  | unknownEndpoint
  | ambiguousEndpoint
  | entityGenerationMismatch
  | topologyGenerationMismatch
  | epochMismatch
  | linkStateDown
  | linkStateFaulted
  | linkStateRetired
  | linkStateRevalidationRequired
  | linkStateUnknown
  | linkStateDegradedDisallowed
  | portAdminDisabled
  | portDraining
  | portMaintenance
  | portRetired
  | portSuperseded
  | portRevalidationRequired
  | portUnknown
  | capabilityUnknown
  | capabilityInsufficient
  | failureDomainForbidden
  | failureDomainUnknown
  | failureDomainMemberLimitExceeded
  | failureDomainClassForbidden
  | forbiddenNode
  | forbiddenLink
  | forbiddenPort
  | requiredNodeMissing
  | requiredAnySetUnsatisfied
  | maxHopsExceeded
  | layerMismatch
  | selfLoopRejected
  | disconnectedGraph
  | noStructuralPath
  | costOverflow
  | hopCountOverflow
  | workBudgetExhausted
  | candidateLimitExceeded
  | constraintCountExceeded
  | requestedCandidatesAboveCeiling
  | duplicateConstraintEntry
  | zeroHopSelfPathDisallowed
  | staleEvidence
  | invalidationWatermarkChanged
  | workerBootFenced
  | coordinatorEpochStale
  | authorityScopeInsufficient
  | persistenceCorrupt
  | persistenceVersionUnsupported
  | persistenceDigestMismatch
  | persistenceTrailingBytes
  | persistenceDuplicatePlan
  | persistenceDuplicateCandidate
  | persistenceLimitExceeded
  | protocolMalformedFrame
  | protocolVersionMismatch
  | protocolIntegrityMismatch
  | protocolTrailingBytes
  | protocolUnknownMessage
  | protocolReceiveBoundExceeded
  | protocolSessionLimit
  | protocolSlowPeer
  | graphTooLarge
  | tooManyEdges
  | nonCurrentCandidate
  | authorityValidationRejected
  | authorityValidationUnavailable
  | unsupportedEndpointClass
  | unsupportedLayer
  | unsupportedRequest
  | truncatedByLimit
  | unknownSourceEntity
  | unknownDestinationEntity
  | snapshotNotAvailable
  | planNotFound
  | planRetired
  | duplicatePlanIdentity
  | cancelled
  | persistenceImpossibleValue
  deriving DecidableEq, Repr

/-- The stable numeric value of a diagnostic. -/
def DiagnosticCode.value (code : DiagnosticCode) : ℕ := code.ctorIdx + 1

end PathPlanner
