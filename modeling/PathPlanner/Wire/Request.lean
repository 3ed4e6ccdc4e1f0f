import PathPlanner.Plan.Request
import PathPlanner.Wire.Outcome

/-!
# Requests on the wire

A planning request is written field by field, with the fields that only matter under a flag written
always. The decoder bounds every count before it reads the elements, and validates the request once
it has read all of it.

## Main definitions

* `encodePlanningRequestPayload`: the encoder
* `decodePlanningRequestPayload`: the decoder
* `PlanningRequest.HasDeclaredValues`: every enumeration holds a declared value

## Main results

* `readRequest_spells`: what the field decoders accept
* `PlanningRequest.isReadable_of_valid`: the validation is at least as strict as the field decoders
* `decodePlanningRequestPayload_isStrict`: **the request codec is strict**
-/

namespace PathPlanner

open Decoder

/-! ## The encoder -/

/-- The identities of a list behind their number. -/
def encodeIds {Tag : Type} {n : ℕ} (writer : ByteWriter) (ids : List (FixedId Tag n)) : ByteWriter :=
  ids.foldl (fun writer id => writer.id id) (writer.varU64 ids.length)

/-- The endpoint fields of `EncodePlanningRequestPayload`. -/
def encodeEndpoint (writer : ByteWriter) (endpoint : EndpointRef) : ByteWriter :=
  let writer := writer.id endpoint.id
  let writer := writer.u32 (WireEnum.value endpoint.endpointClass)
  writer.u64 endpoint.generation.value

/-- The stage loop of `EncodePlanningRequestPayload`. -/
def encodeTransitStage (writer : ByteWriter) (stage : TransitStage) : ByteWriter :=
  encodeIds (writer.u32 (WireEnum.value stage.kind)) stage.alternatives

/-- The capability loop of `EncodePlanningRequestPayload`. -/
def encodeCapabilityRequirement (writer : ByteWriter) (requirement : CapabilityRequirement) :
    ByteWriter :=
  let writer := writer.id requirement.capability
  let writer := writer.u32 (WireEnum.value requirement.scope)
  let writer := writer.u32 (WireEnum.value requirement.comparator)
  writer.u64 requirement.value.value

/-- The constraint fields of `EncodePlanningRequestPayload`. -/
def encodeConstraintSet (writer : ByteWriter) (constraints : ConstraintSet) : ByteWriter :=
  let writer := writer.id constraints.id
  let writer := writer.u64 constraints.generation.value
  let writer := writer.u32 (WireEnum.value constraints.layer)
  let writer := encodeIds writer constraints.forbiddenNodes
  let writer := encodeIds writer constraints.forbiddenLinks
  let writer := encodeIds writer constraints.forbiddenPorts
  let writer := encodeIds writer constraints.forbiddenFailureDomains
  let writer := encodeIds writer constraints.forbiddenFailureDomainClasses
  let writer := constraints.requiredTransit.foldl encodeTransitStage
    (writer.varU64 constraints.requiredTransit.length)
  let writer := constraints.requiredCapabilities.foldl encodeCapabilityRequirement
    (writer.varU64 constraints.requiredCapabilities.length)
  let writer := writer.bool constraints.maxHops.isSome
  let writer := constraints.maxHops.elim writer fun hops => writer.u32 hops.value
  let writer := writer.bool constraints.maxMembersPerFailureDomain.isSome
  let writer := constraints.maxMembersPerFailureDomain.elim writer fun limit =>
    writer.u32 limit.toNat
  writer.bool constraints.failClosedOnUnknownDomains

/-- The policy fields of `EncodePlanningRequestPayload`. -/
def encodePolicy (writer : ByteWriter) (policy : PlanningPolicy) : ByteWriter :=
  let writer := writer.u64 policy.generation.value
  let writer := writer.u64 policy.costModel.hopCost.value
  let writer := writer.u64 policy.costModel.degradedPenalty.value
  let writer := writer.u64 policy.costModel.localityPenalty.value
  let writer := writer.bool policy.allowDegradedLinks
  let writer := writer.bool policy.allowDrainingPorts
  let writer := writer.bool policy.allowMaintenancePorts
  let writer := writer.bool policy.requireOperationalProof
  let writer := writer.bool policy.allowZeroHopSelfPath
  let writer := encodeIds writer policy.localityScope
  writer.u32 (WireEnum.value policy.authorityValidation)

/-- The authority fields of `EncodePlanningRequestPayload`. -/
def encodeAuthority (writer : ByteWriter) (authority : CallerAuthority) : ByteWriter :=
  let writer := writer.u32 authority.scopeMask.toNat
  let writer := writer.id authority.publisher
  let writer := writer.id authority.workerBoot
  let writer := writer.u64 authority.coordinatorEpoch.value
  let writer := writer.id authority.attempt
  let writer := writer.bool authority.epochBound
  writer.bool authority.enforceScope

/-- `EncodePlanningRequestPayload`. -/
def encodePlanningRequestPayload (writer : ByteWriter) (request : PlanningRequest) : ByteWriter :=
  let writer := writer.id request.id
  let writer := encodeEndpoint writer request.source
  let writer := encodeEndpoint writer request.destination
  let writer := encodeConstraintSet writer request.constraints
  let writer := encodePolicy writer request.policy
  let writer := writer.u32 request.maxCandidates.toNat
  let writer := writer.u32 (WireEnum.value request.mode)
  let writer := encodeAuthority writer request.authority
  let writer := writer.bool request.expectEpoch
  let writer := writer.u64 request.expectedEpoch.value
  let writer := writer.bool request.expectTopology
  let writer := writer.u64 request.expectedTopology.value
  let writer := writer.bool request.expectSnapshot
  writer.id request.expectedSnapshot

/-! ## The decoder -/

/-- A `VarU64` and `DecodeTypedIdVector`: identities that are not nil behind their number. -/
def readIds {Tag : Type} {n : ℕ} (limit : UInt32) (name : String) :
    Decoder ByteReader WireRefusal (List (FixedId Tag n)) :=
  ByteReader.counted limit.toNat malformedSilently
    (malformed (name ++ ": count exceeds the configured limit")) fun _ => wireReasons.id name

/-- The endpoint fields of `DecodePlanningRequestPayload`. -/
def readEndpoint (idName className generationName : String) :
    Decoder ByteReader WireRefusal EndpointRef := do
  let id ← wireReasons.id idName
  let endpointClass ← wireReasons.enumeration className EndpointClass
  let generation ← wireReasons.strong generationName
  pure { id, endpointClass, generation }

/-- The stage loop of `DecodePlanningRequestPayload`. -/
def readTransitStage (limits : ResourceLimits) : Decoder ByteReader WireRefusal TransitStage := do
  let kind ← wireReasons.enumeration "transit kind" TransitKind
  let alternatives ← readIds limits.maxMembersInAnySet "transit alternative"
  pure { kind, alternatives }

/-- The capability loop of `DecodePlanningRequestPayload`. -/
def readCapabilityRequirement : Decoder ByteReader WireRefusal CapabilityRequirement := do
  let capability ← wireReasons.id "capability identity"
  let scope ← wireReasons.enumeration "capability scope" CapabilityScope
  let comparator ← wireReasons.enumeration "capability comparator" CapabilityComparator
  let value ← wireReasons.strong "capability value"
  pure { capability, scope, comparator, value }

/-- The constraint fields of `DecodePlanningRequestPayload`. -/
def readConstraintSet (limits : ResourceLimits) : Decoder ByteReader WireRefusal ConstraintSet := do
  let id ← wireReasons.id "constraint set identity"
  let generation ← wireReasons.strong "constraint generation"
  let layer ← wireReasons.enumeration "planning layer" PathLayer
  let forbiddenNodes ← readIds limits.maxForbiddenIds "forbidden node"
  let forbiddenLinks ← readIds limits.maxForbiddenIds "forbidden link"
  let forbiddenPorts ← readIds limits.maxForbiddenIds "forbidden port"
  let forbiddenFailureDomains ← readIds limits.maxForbiddenIds "forbidden failure domain"
  let forbiddenFailureDomainClasses ←
    readIds limits.maxForbiddenDomainClasses "forbidden failure domain class"
  let stageCount := malformed "transit stage count exceeds the configured limit"
  let requiredTransit ← ByteReader.counted limits.maxRequiredIds.toNat stageCount stageCount
    fun _ => readTransitStage limits
  let capabilityCount := malformed "capability requirement count exceeds the configured limit"
  let requiredCapabilities ← ByteReader.counted limits.maxCapabilityRequirements.toNat
    capabilityCount capabilityCount fun _ => readCapabilityRequirement
  let hopRange := malformed "max_hops is out of range"
  let maxHops ← ByteReader.optional (malformed "constraint max_hops flag is missing")
    (ByteReader.bounded 4 hopRange hopRange)
  let maxMembersPerFailureDomain ←
    ByteReader.optional (malformed "constraint failure-domain limit flag is missing")
      (ByteReader.u32 (malformed "failure-domain member limit is missing"))
  let failClosedOnUnknownDomains ←
    ByteReader.bool (malformed "failure-domain fail-closed flag is missing")
  pure
    { id, generation, layer, forbiddenNodes, forbiddenLinks, forbiddenPorts,
      forbiddenFailureDomains, forbiddenFailureDomainClasses, requiredTransit,
      requiredCapabilities, maxHops, maxMembersPerFailureDomain, failClosedOnUnknownDomains }

/-- The policy fields of `DecodePlanningRequestPayload`. -/
def readPolicy (limits : ResourceLimits) : Decoder ByteReader WireRefusal PlanningPolicy := do
  let generation ← wireReasons.strong "policy generation"
  let hopCost ← wireReasons.strong "hop cost"
  let degradedPenalty ← wireReasons.strong "degraded penalty"
  let localityPenalty ← wireReasons.strong "locality penalty"
  let truncated := malformed "policy flags are truncated"
  let allowDegradedLinks ← ByteReader.bool truncated
  let allowDrainingPorts ← ByteReader.bool truncated
  let allowMaintenancePorts ← ByteReader.bool truncated
  let requireOperationalProof ← ByteReader.bool truncated
  let allowZeroHopSelfPath ← ByteReader.bool truncated
  let localityScope ← readIds limits.maxForbiddenIds "locality scope node"
  let authorityValidation ←
    wireReasons.enumeration "authority validation mode" AuthorityValidationMode
  pure
    { generation, costModel := { hopCost, degradedPenalty, localityPenalty }, allowDegradedLinks,
      allowDrainingPorts, allowMaintenancePorts, requireOperationalProof, allowZeroHopSelfPath,
      localityScope, authorityValidation }

/-- The authority fields of `DecodePlanningRequestPayload`: the identities may be nil. -/
def readAuthority : Decoder ByteReader WireRefusal CallerAuthority := do
  let scopeMask ← ByteReader.u32 (malformed "authority scope mask is missing")
  let publisher ← ByteReader.rawId (malformed "publisher identity is truncated")
  let workerBoot ← ByteReader.rawId (malformed "worker boot identity is truncated")
  let coordinatorEpoch ← wireReasons.strong "coordinator epoch"
  let attempt ← ByteReader.rawId (malformed "mutation attempt identity is truncated")
  let epochBound ← ByteReader.bool malformedSilently
  let enforceScope ← ByteReader.bool malformedSilently
  pure { scopeMask, publisher, workerBoot, coordinatorEpoch, attempt, epochBound, enforceScope }

/-- The fields of `DecodePlanningRequestPayload`. -/
def readRequest (limits : ResourceLimits) : Decoder ByteReader WireRefusal PlanningRequest := do
  let id ← wireReasons.id "planning request identity"
  let source ← readEndpoint "source endpoint" "source class" "source generation"
  let destination ←
    readEndpoint "destination endpoint" "destination class" "destination generation"
  let constraints ← readConstraintSet limits
  let policy ← readPolicy limits
  let maxCandidates ← ByteReader.u32 malformedSilently
  let mode ← wireReasons.enumeration "planning mode" PlanningMode
  let authority ← readAuthority
  let expectEpoch ← ByteReader.bool malformedSilently
  let expectedEpoch ← wireReasons.strong "expected epoch"
  let expectTopology ← ByteReader.bool malformedSilently
  let expectedTopology ← wireReasons.strong "expected topology generation"
  let expectSnapshot ← ByteReader.bool (malformed "expected snapshot flag is missing")
  let expectedSnapshot ←
    ByteReader.rawId (malformed "expected snapshot identity is truncated")
  ensure (expectSnapshot = true → expectedSnapshot.isValid = true)
    (malformed "expected snapshot identity is nil")
  pure
    { id, source, destination, constraints, policy, maxCandidates, mode, authority, expectEpoch,
      expectedEpoch, expectTopology, expectedTopology, expectSnapshot, expectedSnapshot }

/-- The request that `DecodePlanningRequestPayload` puts out. -/
def decodeRequestBytes (limits : ResourceLimits) (bytes : List UInt8) :
    Except (Stop WireRefusal) PlanningRequest := do
  let request ← readPayload (readRequest limits)
    "planning request payload carries trailing bytes" bytes
  match validateRequest request limits with
  | some problem =>
    throw (.refused (malformed ("planning request failed validation: " ++ problem.detail)))
  | none => pure request

/-- `DecodePlanningRequestPayload`: none when it accesses anything outside the bytes. -/
def decodePlanningRequestPayload (limits : ResourceLimits) (bytes : List UInt8) (detail : String)
    (out : PlanningRequest) : Option (WireOutcome PlanningRequest) :=
  wireOutcome detail out (decodeRequestBytes limits bytes)

/-! ## Words -/

/-- The word of identities behind their number. -/
def idsWord {Tag : Type} {n : ℕ} (ids : List (FixedId Tag n)) : List UInt8 :=
  listWord FixedId.word ids

/-- The word of an endpoint. -/
def EndpointRef.word (endpoint : EndpointRef) : List UInt8 :=
  endpoint.id.word ++ WireEnum.word endpoint.endpointClass ++
    littleEndian 8 endpoint.generation.value

/-- The word of a transit stage. -/
def TransitStage.word (stage : TransitStage) : List UInt8 :=
  WireEnum.word stage.kind ++ idsWord stage.alternatives

/-- The word of a capability requirement. -/
def CapabilityRequirement.word (requirement : CapabilityRequirement) : List UInt8 :=
  requirement.capability.word ++ WireEnum.word requirement.scope ++
    WireEnum.word requirement.comparator ++ littleEndian 8 requirement.value.value

/-- The word of a constraint set. -/
def ConstraintSet.word (constraints : ConstraintSet) : List UInt8 :=
  constraints.id.word ++ littleEndian 8 constraints.generation.value ++
    WireEnum.word constraints.layer ++ idsWord constraints.forbiddenNodes ++
    idsWord constraints.forbiddenLinks ++ idsWord constraints.forbiddenPorts ++
    idsWord constraints.forbiddenFailureDomains ++
    idsWord constraints.forbiddenFailureDomainClasses ++
    listWord TransitStage.word constraints.requiredTransit ++
    listWord CapabilityRequirement.word constraints.requiredCapabilities ++
    optionWord (fun hops => littleEndian 4 hops.value) constraints.maxHops ++
    optionWord (fun limit => littleEndian 4 limit.toNat) constraints.maxMembersPerFailureDomain ++
    boolWord constraints.failClosedOnUnknownDomains

/-- The word of a policy. -/
def PlanningPolicy.word (policy : PlanningPolicy) : List UInt8 :=
  littleEndian 8 policy.generation.value ++ littleEndian 8 policy.costModel.hopCost.value ++
    littleEndian 8 policy.costModel.degradedPenalty.value ++
    littleEndian 8 policy.costModel.localityPenalty.value ++ boolWord policy.allowDegradedLinks ++
    boolWord policy.allowDrainingPorts ++ boolWord policy.allowMaintenancePorts ++
    boolWord policy.requireOperationalProof ++ boolWord policy.allowZeroHopSelfPath ++
    idsWord policy.localityScope ++ WireEnum.word policy.authorityValidation

/-- The word of an authority. -/
def CallerAuthority.word (authority : CallerAuthority) : List UInt8 :=
  littleEndian 4 authority.scopeMask.toNat ++ authority.publisher.word ++
    authority.workerBoot.word ++ littleEndian 8 authority.coordinatorEpoch.value ++
    authority.attempt.word ++ boolWord authority.epochBound ++ boolWord authority.enforceScope

/-- The word of a request. -/
def PlanningRequest.word (request : PlanningRequest) : List UInt8 :=
  request.id.word ++ request.source.word ++ request.destination.word ++ request.constraints.word ++
    request.policy.word ++ littleEndian 4 request.maxCandidates.toNat ++
    WireEnum.word request.mode ++ request.authority.word ++ boolWord request.expectEpoch ++
    littleEndian 8 request.expectedEpoch.value ++ boolWord request.expectTopology ++
    littleEndian 8 request.expectedTopology.value ++ boolWord request.expectSnapshot ++
    request.expectedSnapshot.word

namespace ByteWriter.Wrote

variable {w : ByteWriter} {ceiling : ℕ} {word : List UInt8}

theorem ids {Tag : Type} {n : ℕ} (h : w.Wrote ceiling word) (ids : List (FixedId Tag n)) :
    (encodeIds w ids).Wrote ceiling (word ++ idsWord ids) :=
  h.list fun id _ _ _ hw => hw.id id

theorem endpoint (h : w.Wrote ceiling word) (endpoint : EndpointRef) :
    (encodeEndpoint w endpoint).Wrote ceiling (word ++ endpoint.word) := by
  simp only [EndpointRef.word, ← List.append_assoc]
  exact ((h.id _).enumeration _).u64 _

theorem transitStage (h : w.Wrote ceiling word) (stage : TransitStage) :
    (encodeTransitStage w stage).Wrote ceiling (word ++ stage.word) := by
  simp only [TransitStage.word, ← List.append_assoc]
  exact (h.enumeration _).ids _

theorem capabilityRequirement (h : w.Wrote ceiling word) (requirement : CapabilityRequirement) :
    (encodeCapabilityRequirement w requirement).Wrote ceiling (word ++ requirement.word) := by
  simp only [CapabilityRequirement.word, ← List.append_assoc]
  exact (((h.id _).enumeration _).enumeration _).u64 _

theorem constraintSet (h : w.Wrote ceiling word) (constraints : ConstraintSet) :
    (encodeConstraintSet w constraints).Wrote ceiling (word ++ constraints.word) := by
  simp only [ConstraintSet.word, ← List.append_assoc]
  have hforbidden := ((((((h.id constraints.id).u64 constraints.generation.value).enumeration
    constraints.layer).ids constraints.forbiddenNodes).ids constraints.forbiddenLinks).ids
    constraints.forbiddenPorts).ids constraints.forbiddenFailureDomains |>.ids
    constraints.forbiddenFailureDomainClasses
  have hstages := hforbidden.list
    fun stage (_ : stage ∈ constraints.requiredTransit) _ _ hw => hw.transitStage stage
  have hcapabilities := hstages.list
    fun requirement (_ : requirement ∈ constraints.requiredCapabilities) _ _ hw =>
      hw.capabilityRequirement requirement
  have hhops := hcapabilities.option (fun _ _ hops hw => hw.u32 hops.value) constraints.maxHops
  have hlimit := hhops.option (fun _ _ limit hw => hw.u32 (UInt32.toNat limit))
    constraints.maxMembersPerFailureDomain
  exact hlimit.bool constraints.failClosedOnUnknownDomains

theorem policy (h : w.Wrote ceiling word) (policy : PlanningPolicy) :
    (encodePolicy w policy).Wrote ceiling (word ++ policy.word) := by
  simp only [PlanningPolicy.word, ← List.append_assoc]
  exact ((((((((((h.u64 _).u64 _).u64 _).u64 _).bool _).bool _).bool _).bool _).bool _).ids
    _).enumeration _

theorem authority (h : w.Wrote ceiling word) (authority : CallerAuthority) :
    (encodeAuthority w authority).Wrote ceiling (word ++ authority.word) := by
  simp only [CallerAuthority.word, ← List.append_assoc]
  exact ((((((h.u32 _).id _).id _).u64 _).id _).bool _).bool _

theorem request (h : w.Wrote ceiling word) (request : PlanningRequest) :
    (encodePlanningRequestPayload w request).Wrote ceiling (word ++ request.word) := by
  simp only [PlanningRequest.word, ← List.append_assoc]
  exact (((((((((((((h.id _).endpoint _).endpoint _).constraintSet _).policy _).u32
    _).enumeration _).authority _).bool _).u64 _).bool _).u64 _).bool _).id _

end ByteWriter.Wrote

/-! ## What the field decoders accept -/

/-- Identities that are not nil, within a limit. -/
structure AreReadableIds {Tag : Type} {n : ℕ} (limit : UInt32) (ids : List (FixedId Tag n)) :
    Prop where
  length_le : ids.length ≤ limit.toNat
  isValid : ∀ id ∈ ids, id.isValid = true

/-- The endpoints that are accepted. -/
structure EndpointRef.IsReadable (endpoint : EndpointRef) : Prop where
  id_isValid : endpoint.id.isValid = true
  class_isKnown : WireEnum.IsKnown endpoint.endpointClass

/-- The transit stages that are accepted. -/
structure TransitStage.IsReadable (limits : ResourceLimits) (stage : TransitStage) : Prop where
  kind_isKnown : WireEnum.IsKnown stage.kind
  alternatives : AreReadableIds limits.maxMembersInAnySet stage.alternatives

/-- The capability requirements that are accepted. -/
structure CapabilityRequirement.IsReadable (requirement : CapabilityRequirement) : Prop where
  capability_isValid : requirement.capability.isValid = true
  scope_isKnown : WireEnum.IsKnown requirement.scope
  comparator_isKnown : WireEnum.IsKnown requirement.comparator

/-- The constraint sets that are accepted. -/
structure ConstraintSet.IsReadable (limits : ResourceLimits) (constraints : ConstraintSet) :
    Prop where
  id_isValid : constraints.id.isValid = true
  layer_isKnown : WireEnum.IsKnown constraints.layer
  nodes : AreReadableIds limits.maxForbiddenIds constraints.forbiddenNodes
  links : AreReadableIds limits.maxForbiddenIds constraints.forbiddenLinks
  ports : AreReadableIds limits.maxForbiddenIds constraints.forbiddenPorts
  domains : AreReadableIds limits.maxForbiddenIds constraints.forbiddenFailureDomains
  classes : AreReadableIds limits.maxForbiddenDomainClasses
    constraints.forbiddenFailureDomainClasses
  stages_length_le : constraints.requiredTransit.length ≤ limits.maxRequiredIds.toNat
  stages : ∀ stage ∈ constraints.requiredTransit, stage.IsReadable limits
  capabilities_length_le :
    constraints.requiredCapabilities.length ≤ limits.maxCapabilityRequirements.toNat
  capabilities : ∀ requirement ∈ constraints.requiredCapabilities, requirement.IsReadable
  maxHops_le : ∀ hops ∈ constraints.maxHops, hops.value ≤ maxHopCount

/-- The policies that are accepted. -/
structure PlanningPolicy.IsReadable (limits : ResourceLimits) (policy : PlanningPolicy) : Prop where
  scope : AreReadableIds limits.maxForbiddenIds policy.localityScope
  validation_isKnown : WireEnum.IsKnown policy.authorityValidation

/-- The requests that are accepted, before they are validated. -/
structure PlanningRequest.IsReadable (limits : ResourceLimits) (request : PlanningRequest) :
    Prop where
  id_isValid : request.id.isValid = true
  source : request.source.IsReadable
  destination : request.destination.IsReadable
  constraints : request.constraints.IsReadable limits
  policy : request.policy.IsReadable limits
  mode_isKnown : WireEnum.IsKnown request.mode
  snapshot_isValid : request.expectSnapshot = true → request.expectedSnapshot.isValid = true

theorem readIds_spells {Tag : Type} {n : ℕ} (limit : UInt32) (name : String) :
    Spells (readIds limit name) (fun ids : List (FixedId Tag n) => AreReadableIds limit ids) idsWord :=
  (ByteReader.counted_spells_of_const (wireReasons.id_spells name) (ByteReader.ceiling_lt limit) _
    _).congr (fun _ => ⟨fun h => ⟨h.length_le, h.isValid⟩, fun h => ⟨h.1, h.2⟩⟩) fun _ _ => rfl

theorem readEndpoint_spells (idName className generationName : String) :
    Spells (readEndpoint idName className generationName) EndpointRef.IsReadable
      EndpointRef.word := by
  refine .congr (.start <|
    (wireReasons.id_spells idName).field EndpointRef.id fun id _ =>
    (wireReasons.enumeration_spells className EndpointClass).field EndpointRef.endpointClass
      fun endpointClass _ =>
    (wireReasons.strong_spells generationName).field EndpointRef.generation fun generation _ =>
    .done (Q := fun _ => True) fun endpoint => ?_) (fun endpoint => ?_) fun endpoint _ => ?_
  · cases endpoint
    simp only [EndpointRef.mk.injEq, true_and, and_true, and_assoc]
  · exact ⟨fun h => ⟨h.id_isValid, h.class_isKnown, trivial, trivial⟩, fun h => ⟨h.1, h.2.1⟩⟩
  · simp only [EndpointRef.word, List.append_assoc, List.append_nil]

theorem readTransitStage_spells (limits : ResourceLimits) :
    Spells (readTransitStage limits) (TransitStage.IsReadable limits) TransitStage.word := by
  refine .congr (.start <|
    (wireReasons.enumeration_spells "transit kind" TransitKind).field TransitStage.kind
      fun kind _ =>
    (readIds_spells limits.maxMembersInAnySet "transit alternative").field
      TransitStage.alternatives fun alternatives _ =>
    .done (Q := fun _ => True) fun stage => ?_) (fun stage => ?_) fun stage _ => ?_
  · cases stage
    simp only [TransitStage.mk.injEq, true_and, and_true]
  · exact ⟨fun h => ⟨h.kind_isKnown, h.alternatives, trivial⟩, fun h => ⟨h.1, h.2.1⟩⟩
  · simp only [TransitStage.word, List.append_nil]

theorem readCapabilityRequirement_spells :
    Spells readCapabilityRequirement CapabilityRequirement.IsReadable
      CapabilityRequirement.word := by
  refine .congr (.start <|
    (wireReasons.id_spells "capability identity").field CapabilityRequirement.capability
      fun capability _ =>
    (wireReasons.enumeration_spells "capability scope" CapabilityScope).field
      CapabilityRequirement.scope fun scope _ =>
    (wireReasons.enumeration_spells "capability comparator" CapabilityComparator).field
      CapabilityRequirement.comparator fun comparator _ =>
    (wireReasons.strong_spells "capability value").field CapabilityRequirement.value fun value _ =>
    .done (Q := fun _ => True) fun requirement => ?_) (fun requirement => ?_)
    fun requirement _ => ?_
  · cases requirement
    simp only [CapabilityRequirement.mk.injEq, true_and, and_true, and_assoc]
  · exact ⟨fun h => ⟨h.capability_isValid, h.scope_isKnown, h.comparator_isKnown, trivial, trivial⟩,
      fun h => ⟨h.1, h.2.1, h.2.2.1⟩⟩
  · simp only [CapabilityRequirement.word, List.append_assoc, List.append_nil]

theorem readConstraintSet_spells (limits : ResourceLimits) :
    Spells (readConstraintSet limits) (ConstraintSet.IsReadable limits) ConstraintSet.word := by
  refine .congr (.start <|
    (wireReasons.id_spells "constraint set identity").field ConstraintSet.id fun id _ =>
    (wireReasons.strong_spells "constraint generation").field ConstraintSet.generation
      fun generation _ =>
    (wireReasons.enumeration_spells "planning layer" PathLayer).field ConstraintSet.layer
      fun layer _ =>
    (readIds_spells limits.maxForbiddenIds "forbidden node").field ConstraintSet.forbiddenNodes
      fun nodes _ =>
    (readIds_spells limits.maxForbiddenIds "forbidden link").field ConstraintSet.forbiddenLinks
      fun links _ =>
    (readIds_spells limits.maxForbiddenIds "forbidden port").field ConstraintSet.forbiddenPorts
      fun ports _ =>
    (readIds_spells limits.maxForbiddenIds "forbidden failure domain").field
      ConstraintSet.forbiddenFailureDomains fun domains _ =>
    (readIds_spells limits.maxForbiddenDomainClasses "forbidden failure domain class").field
      ConstraintSet.forbiddenFailureDomainClasses fun classes _ =>
    (ByteReader.counted_spells_of_const (readTransitStage_spells limits) (ByteReader.ceiling_lt _)
      _ _).field ConstraintSet.requiredTransit fun stages _ =>
    (ByteReader.counted_spells_of_const readCapabilityRequirement_spells (ByteReader.ceiling_lt _)
      _ _).field ConstraintSet.requiredCapabilities fun capabilities _ =>
    (ByteReader.optional_spells (ByteReader.bounded_spells (by norm_num) _ _) _).field
      ConstraintSet.maxHops fun maxHops _ =>
    (ByteReader.optional_spells (ByteReader.u32_spells _) _).field
      ConstraintSet.maxMembersPerFailureDomain fun limit _ =>
    (ByteReader.bool_spells _).field ConstraintSet.failClosedOnUnknownDomains fun failClosed _ =>
    .done (Q := fun _ => True) fun constraints => ?_) (fun constraints => ?_)
    fun constraints _ => ?_
  · cases constraints
    simp only [ConstraintSet.mk.injEq, true_and, and_true, and_assoc]
  · constructor
    · exact fun h => ⟨h.id_isValid, trivial, h.layer_isKnown, h.nodes, h.links, h.ports, h.domains,
        h.classes, ⟨h.stages_length_le, h.stages⟩, ⟨h.capabilities_length_le, h.capabilities⟩,
        h.maxHops_le, fun _ _ => trivial, trivial, trivial⟩
    · rintro ⟨h₁, -, h₂, h₃, h₄, h₅, h₆, h₇, ⟨h₈, h₉⟩, ⟨h₁₀, h₁₁⟩, h₁₂, -⟩
      exact ⟨h₁, h₂, h₃, h₄, h₅, h₆, h₇, h₈, h₉, h₁₀, h₁₁, h₁₂⟩
  · simp only [ConstraintSet.word, List.append_assoc, List.append_nil]

theorem readPolicy_spells (limits : ResourceLimits) :
    Spells (readPolicy limits) (PlanningPolicy.IsReadable limits) PlanningPolicy.word := by
  refine .congr (.start <|
    (wireReasons.strong_spells "policy generation").field PlanningPolicy.generation
      fun generation _ =>
    (wireReasons.strong_spells "hop cost").field (fun p : PlanningPolicy => p.costModel.hopCost)
      fun hopCost _ =>
    (wireReasons.strong_spells "degraded penalty").field
      (fun p : PlanningPolicy => p.costModel.degradedPenalty) fun degradedPenalty _ =>
    (wireReasons.strong_spells "locality penalty").field
      (fun p : PlanningPolicy => p.costModel.localityPenalty) fun localityPenalty _ =>
    (ByteReader.bool_spells _).field PlanningPolicy.allowDegradedLinks fun degraded _ =>
    (ByteReader.bool_spells _).field PlanningPolicy.allowDrainingPorts fun draining _ =>
    (ByteReader.bool_spells _).field PlanningPolicy.allowMaintenancePorts fun maintenance _ =>
    (ByteReader.bool_spells _).field PlanningPolicy.requireOperationalProof fun proof _ =>
    (ByteReader.bool_spells _).field PlanningPolicy.allowZeroHopSelfPath fun zeroHop _ =>
    (readIds_spells limits.maxForbiddenIds "locality scope node").field
      PlanningPolicy.localityScope fun scope _ =>
    (wireReasons.enumeration_spells "authority validation mode" AuthorityValidationMode).field
      PlanningPolicy.authorityValidation fun validation _ =>
    .done (Q := fun _ => True) fun policy => ?_) (fun policy => ?_) fun policy _ => ?_
  · obtain ⟨generation, ⟨hopCost, degradedPenalty, localityPenalty⟩⟩ := policy
    simp only [PlanningPolicy.mk.injEq, CostModel.mk.injEq, true_and, and_true, and_assoc]
  · constructor
    · exact fun h => ⟨trivial, trivial, trivial, trivial, trivial, trivial, trivial, trivial, trivial,
        h.scope, h.validation_isKnown, trivial⟩
    · rintro ⟨-, -, -, -, -, -, -, -, -, hscope, hvalidation, -⟩
      exact ⟨hscope, hvalidation⟩
  · simp only [PlanningPolicy.word, List.append_assoc, List.append_nil]

theorem readAuthority_spells : Spells readAuthority (fun _ => True) CallerAuthority.word := by
  refine .congr (.start <|
    (ByteReader.u32_spells _).field CallerAuthority.scopeMask fun scopeMask _ =>
    (ByteReader.rawId_spells _).field CallerAuthority.publisher fun publisher _ =>
    (ByteReader.rawId_spells _).field CallerAuthority.workerBoot fun workerBoot _ =>
    (wireReasons.strong_spells "coordinator epoch").field CallerAuthority.coordinatorEpoch
      fun coordinatorEpoch _ =>
    (ByteReader.rawId_spells _).field CallerAuthority.attempt fun attempt _ =>
    (ByteReader.bool_spells _).field CallerAuthority.epochBound fun epochBound _ =>
    (ByteReader.bool_spells _).field CallerAuthority.enforceScope fun enforceScope _ =>
    .done (Q := fun _ => True) fun authority => ?_) (fun authority => ?_) fun authority _ => ?_
  · cases authority
    simp only [CallerAuthority.mk.injEq, true_and, and_true, and_assoc]
  · simp only [and_true]
  · simp only [CallerAuthority.word, List.append_assoc, List.append_nil]

theorem readRequest_spells (limits : ResourceLimits) :
    Spells (readRequest limits) (PlanningRequest.IsReadable limits) PlanningRequest.word := by
  refine .congr (.start <|
    (wireReasons.id_spells "planning request identity").field PlanningRequest.id fun id _ =>
    (readEndpoint_spells _ _ _).field PlanningRequest.source fun source _ =>
    (readEndpoint_spells _ _ _).field PlanningRequest.destination fun destination _ =>
    (readConstraintSet_spells limits).field PlanningRequest.constraints fun constraints _ =>
    (readPolicy_spells limits).field PlanningRequest.policy fun policy _ =>
    (ByteReader.u32_spells _).field PlanningRequest.maxCandidates fun maxCandidates _ =>
    (wireReasons.enumeration_spells "planning mode" PlanningMode).field PlanningRequest.mode
      fun mode _ =>
    readAuthority_spells.field PlanningRequest.authority fun authority _ =>
    (ByteReader.bool_spells _).field PlanningRequest.expectEpoch fun expectEpoch _ =>
    (wireReasons.strong_spells "expected epoch").field PlanningRequest.expectedEpoch
      fun expectedEpoch _ =>
    (ByteReader.bool_spells _).field PlanningRequest.expectTopology fun expectTopology _ =>
    (wireReasons.strong_spells "expected topology generation").field
      PlanningRequest.expectedTopology fun expectedTopology _ =>
    (ByteReader.bool_spells _).field PlanningRequest.expectSnapshot fun expectSnapshot _ =>
    (ByteReader.rawId_spells _).field PlanningRequest.expectedSnapshot fun expectedSnapshot _ =>
    .ensure (fun request : PlanningRequest =>
      request.expectSnapshot = true → request.expectedSnapshot.isValid = true) ?_ fun _ =>
    .done (Q := fun _ => True) fun request => ?_) (fun request => ?_) fun request _ => ?_
  · rintro request ⟨⟨-, rfl⟩, rfl⟩
    exact Iff.rfl
  · cases request
    simp only [PlanningRequest.mk.injEq, true_and, and_true, and_assoc]
  · constructor
    · exact fun h => ⟨h.id_isValid, h.source, h.destination, h.constraints, h.policy, trivial,
        h.mode_isKnown, trivial, trivial, trivial, trivial, trivial, trivial, trivial,
        h.snapshot_isValid, trivial⟩
    · rintro ⟨h₁, h₂, h₃, h₄, h₅, -, h₆, -, -, -, -, -, -, -, h₇, -⟩
      exact ⟨h₁, h₂, h₃, h₄, h₅, h₆, h₇⟩
  · simp only [PlanningRequest.word, List.append_assoc, List.append_nil]

/-! ## Validation -/

/-- Every enumeration of the request holds a declared value. -/
structure PlanningRequest.HasDeclaredValues (request : PlanningRequest) : Prop where
  source : WireEnum.IsKnown request.source.endpointClass
  destination : WireEnum.IsKnown request.destination.endpointClass
  layer : WireEnum.IsKnown request.constraints.layer
  kinds : ∀ stage ∈ request.constraints.requiredTransit, WireEnum.IsKnown stage.kind
  scopes : ∀ requirement ∈ request.constraints.requiredCapabilities,
    WireEnum.IsKnown requirement.scope ∧ WireEnum.IsKnown requirement.comparator
  validation : WireEnum.IsKnown request.policy.authorityValidation
  mode : WireEnum.IsKnown request.mode

section Validation

variable {limits : ResourceLimits} {request : PlanningRequest}

/-- What the field decoders accept has declared values. -/
theorem PlanningRequest.IsReadable.hasDeclaredValues (h : request.IsReadable limits) :
    request.HasDeclaredValues where
  source := h.source.class_isKnown
  destination := h.destination.class_isKnown
  layer := h.constraints.layer_isKnown
  kinds stage hstage := (h.constraints.stages stage hstage).kind_isKnown
  scopes requirement hrequirement :=
    ⟨(h.constraints.capabilities requirement hrequirement).scope_isKnown,
      (h.constraints.capabilities requirement hrequirement).comparator_isKnown⟩
  validation := h.policy.validation_isKnown
  mode := h.mode_isKnown

/-- Identities that pass the checks of a list. -/
theorem areReadableIds_of {Tag : Type} {n : ℕ} {limit : UInt32} {ids : List (FixedId Tag n)}
    (hlength : exceeds ids.length limit = false) (hvalid : ids.any (!·.isValid) = false) :
    AreReadableIds limit ids where
  length_le := not_lt.mp (of_decide_eq_false hlength)
  isValid id hid := by
    have hany := List.any_eq_false.mp hvalid id hid
    simpa using hany

/-- A coherent configuration bounds the hops by the largest hop count. -/
theorem maxHops_le_of_validateLimits (h : validateLimits limits = none) :
    limits.maxHops.toNat ≤ maxHopCount := by
  by_contra hlarge
  unfold validateLimits at h
  split_ifs at h with _ _ hhops
  exact hhops (Or.inr (not_le.mp hlarge))

/-- **The validation is at least as strict** as the field decoders: a valid request with declared
values is readable. -/
theorem PlanningRequest.isReadable_of_valid (hlimits : validateLimits limits = none)
    (hdeclared : request.HasDeclaredValues) (hvalid : validateRequest request limits = none) :
    request.IsReadable limits := by
  have hhops := @validateRequest_maxHops request limits hvalid
  obtain ⟨hshape, ⟨hentries, hstages, hbounds⟩, hpolicy, hexpected⟩ :=
    validateRequest_eq_none_iff.mp hvalid
  replace hshape := firstProblem_eq_none_iff.mp hshape
  replace hentries := firstProblem_eq_none_iff.mp hentries
  replace hbounds := firstProblem_eq_none_iff.mp hbounds
  replace hpolicy := firstProblem_eq_none_iff.mp hpolicy
  replace hexpected := firstProblem_eq_none_iff.mp hexpected
  simp only [List.forall_mem_cons, Bool.not_eq_false', Bool.or_eq_false_iff] at hshape hentries
  simp only [List.forall_mem_cons] at hbounds hpolicy hexpected
  obtain ⟨hid, hsource, hdestination, -⟩ := hshape
  obtain ⟨hset, -, ⟨⟨⟨⟨hnodes, hlinks⟩, hports⟩, hdomains⟩, hclasses⟩, hstageCount,
    hcapabilityCount, hnodes', hlinks', hports', hdomains', hclasses', -⟩ := hentries
  refine ⟨hid, ⟨hsource, hdeclared.source⟩, ⟨hdestination, hdeclared.destination⟩,
    ⟨hset, hdeclared.layer, areReadableIds_of hnodes hnodes', areReadableIds_of hlinks hlinks',
      areReadableIds_of hports hports', areReadableIds_of hdomains hdomains',
      areReadableIds_of hclasses hclasses', not_lt.mp (of_decide_eq_false hstageCount),
      fun stage hstage => ?_, not_lt.mp (of_decide_eq_false hcapabilityCount),
      fun requirement hrequirement => ?_, fun hops hops' => ?_⟩,
    ⟨areReadableIds_of hpolicy.1 hpolicy.2.1, hdeclared.validation⟩, hdeclared.mode, fun hflag => ?_⟩
  · have hstage' := firstProblem_eq_none_iff.mp (hstages stage hstage)
    simp only [List.forall_mem_cons] at hstage'
    exact ⟨hdeclared.kinds stage hstage, areReadableIds_of hstage'.2.2.1 hstage'.2.2.2.1⟩
  · have hcapability := List.any_eq_false.mp hbounds.1 requirement hrequirement
    obtain ⟨hscope, hcomparator⟩ := hdeclared.scopes requirement hrequirement
    exact ⟨by simpa using hcapability, hscope, hcomparator⟩
  · exact (hhops hops').trans (maxHops_le_of_validateLimits hlimits)
  · have hsnapshot := hexpected.2.1
    rw [hflag, Bool.true_and, Bool.not_eq_false'] at hsnapshot
    exact hsnapshot

end Validation

/-! ## The codec -/

section Codec

variable (limits : ResourceLimits)

/-- The requests that the codec is for: their enumerations hold declared values, and they pass the
validation. -/
structure PlanningRequest.IsSendable (request : PlanningRequest) : Prop where
  declared : request.HasDeclaredValues
  valid : validateRequest request limits = none

theorem encodedBy_request_iff {request : PlanningRequest} {bytes : List UInt8} :
    EncodedBy encodePlanningRequestPayload request bytes ↔ request.word = bytes :=
  encodedBy_iff fun ceiling => (ByteWriter.Wrote.new ceiling).request request

/-- A request whose word fits is written as its word. -/
theorem data_encodePlanningRequestPayload {ceiling : ℕ} {request : PlanningRequest}
    (h : request.word.length ≤ ceiling) :
    (encodePlanningRequestPayload (.new ceiling) request).data = request.word := by
  have hwrote := (ByteWriter.Wrote.new ceiling).request request
  rw [List.nil_append] at hwrote
  apply hwrote.data_eq
  exact hwrote.overflowed_eq_false_iff.mpr h

/-- **Exactly the words of sendable requests** are accepted, as these requests. -/
theorem decodeRequestBytes_eq_ok_iff (hlimits : validateLimits limits = none)
    {bytes : List UInt8} {request : PlanningRequest} :
    decodeRequestBytes limits bytes = .ok request ↔
      request.IsSendable limits ∧ request.word = bytes := by
  have hread (value : PlanningRequest) : readPayload (readRequest limits)
      "planning request payload carries trailing bytes" bytes = .ok value ↔
        value.IsReadable limits ∧ value.word = bytes :=
    readPayload_eq_ok_iff (readRequest_spells limits)
  unfold decodeRequestBytes
  cases hpayload : readPayload (readRequest limits)
    "planning request payload carries trailing bytes" bytes with
  | error stop =>
    rw [hpayload] at hread
    constructor
    · intro h
      cases h
    · rintro ⟨hsendable, hword⟩
      have hreadable := PlanningRequest.isReadable_of_valid hlimits hsendable.declared hsendable.valid
      cases (hread request).mpr ⟨hreadable, hword⟩
  | ok decoded =>
    rw [hpayload] at hread
    obtain ⟨hreadable, hword⟩ := (hread decoded).mp rfl
    simp only [ok_bind]
    cases hvalid : validateRequest decoded limits with
    | some problem =>
      constructor
      · intro h
        cases h
      · rintro ⟨hsendable, hword'⟩
        -- the bytes are the word of one readable request
        obtain rfl : decoded = request := Except.ok.inj ((hread request).mpr
          ⟨PlanningRequest.isReadable_of_valid hlimits hsendable.declared hsendable.valid, hword'⟩)
        rw [hsendable.valid] at hvalid
        cases hvalid
    | none =>
      constructor
      · intro h
        obtain rfl := Except.ok.inj h
        exact ⟨⟨hreadable.hasDeclaredValues, hvalid⟩, hword⟩
      · rintro ⟨hsendable, hword'⟩
        exact (hread request).mpr
          ⟨PlanningRequest.isReadable_of_valid hlimits hsendable.declared hsendable.valid, hword'⟩

/-- Nothing outside the bytes is accessed. -/
theorem decodeRequestBytes_ne_fault (bytes : List UInt8) :
    decodeRequestBytes limits bytes ≠ .error .fault := by
  have hsafe : readPayload (readRequest limits)
      "planning request payload carries trailing bytes" bytes ≠ .error .fault :=
    readPayload_ne_fault (readRequest_spells limits)
  unfold decodeRequestBytes
  cases hpayload : readPayload (readRequest limits)
    "planning request payload carries trailing bytes" bytes with
  | error stop =>
    intro h
    obtain rfl := Except.error.inj h
    exact hsafe hpayload
  | ok decoded =>
    simp only [ok_bind]
    cases validateRequest decoded limits <;> intro h <;> cases h

/-- **The request codec is strict**: under coherent limits the encoding of every valid request with
declared values is accepted as that request, nothing else is accepted, and a rejection leaves the
output alone. -/
theorem decodePlanningRequestPayload_isStrict (hlimits : validateLimits limits = none) :
    IsStrict (PlanningRequest.IsSendable limits) (EncodedBy encodePlanningRequestPayload)
      (decodePlanningRequestPayload limits) := by
  refine isStrict_wireOutcome (fun request _ => ?_) (fun bytes request => ?_)
    (decodeRequestBytes_ne_fault limits)
  · simp only [encodedBy_request_iff]
    exact existsUnique_eq'
  · rw [encodedBy_request_iff]
    exact decodeRequestBytes_eq_ok_iff limits hlimits

/-- A request without constraints is decoded from its encoding under the default limits. -/
theorem decodePlanningRequestPayload_isStrict_between :
    ∃ bytes, EncodedBy encodePlanningRequestPayload (.between 1 2) bytes ∧
      decodePlanningRequestPayload {} bytes "" (.between 3 4) =
        some ⟨.ok, "", .between 1 2⟩ := by
  have hstrict := decodePlanningRequestPayload_isStrict {} (by decide)
  have hsendable : (PlanningRequest.between 1 2).IsSendable {} :=
    ⟨⟨by decide, by decide, by decide, by simp [PlanningRequest.between],
      by simp [PlanningRequest.between], by decide, by decide⟩, by decide +kernel⟩
  obtain ⟨bytes, hbytes, -⟩ := hstrict.existsUnique_encoding _ hsendable
  exact ⟨bytes, hbytes, hstrict.decode_encoding _ _ _ _ hsendable hbytes⟩

end Codec

end PathPlanner
