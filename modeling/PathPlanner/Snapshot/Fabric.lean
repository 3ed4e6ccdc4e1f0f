import PathPlanner.Core.Limits
import PathPlanner.Snapshot.Records

/-!
# Fabric snapshots

A `FabricSnapshot` is the immutable, coherent input of planning. It carries the facts that its
builder checks, so a snapshot with repeated identities or dangling references cannot be formed.
The builder itself carries what each `Add` checks; `build` checks the rest.

## Main definitions

* `FabricSnapshot`: the snapshot, with its well-formedness
* `FabricSnapshot.findNode`, `findEdge`, `findEndpoint`: lookup by identity
* `FabricSnapshot.encode`: the canonical encoding behind the snapshot digest
* `FabricSnapshotBuilder`, `FabricSnapshotBuilder.build`: construction
* `FabricSnapshot.UniqueKeys`: the published records have pairwise different keys

## Main results

* `FabricSnapshot.findNode_eq_some_iff`, `FabricSnapshot.findEndpoint_eq_some_iff`: lookup finds
  exactly the records of the snapshot
* `FabricSnapshotBuilder.records_eq_ok`: the records of a build that succeeds
-/

namespace PathPlanner

open SortedList

/-! ## Snapshots -/

/-- The records of a snapshot before its digest is known. -/
structure SnapshotRecords where
  generations : SnapshotGenerations
  evidenceSource : EvidenceSource
  limits : ResourceLimits
  nodes : List NodeRecord
  edges : List EdgeRecord
  endpoints : List EndpointRecord
  linkStates : LinkStateView
  portStates : PortStateView
  capabilities : CapabilityView
  failureDomains : FailureDomainView
  nodes_sorted : nodes.Pairwise (·.id < ·.id)
  edges_sorted : edges.Pairwise (·.id < ·.id)
  endpoints_sorted : endpoints.Pairwise (·.id < ·.id)
  nodes_length : nodes.length ≤ limits.maxNodes.toNat
  edges_length : edges.length ≤ limits.maxEdges.toNat
  endpoints_length : endpoints.length ≤ limits.maxEndpoints.toNat
  ports_length : ∀ n ∈ nodes, n.ports.length ≤ limits.maxPortsPerNode.toNat
  linkStates_length : linkStates.records.length ≤ limits.maxLinkStateRecords.toNat
  portStates_length : portStates.records.length ≤ limits.maxPortStateRecords.toNat
  bindings_length : capabilities.bindings.length ≤ limits.maxCapabilityBindings.toNat
  domains_length : failureDomains.domains.length ≤ limits.maxFailureDomains.toNat
  members_length : ∀ d ∈ failureDomains.domains,
    d.members.length ≤ limits.maxMembersPerFailureDomain.toNat
  nodes_valid : ∀ n ∈ nodes, n.id.isValid = true
  edges_valid : ∀ e ∈ edges, e.id.isValid = true ∧ e.fromPort.isValid = true ∧
    e.toPort.isValid = true
  no_self_loop : ∀ e ∈ edges, e.source ≠ e.target
  edge_source : ∀ e ∈ edges, ∃ n ∈ nodes, n.id = e.source ∧ e.fromPort ∈ n.ports
  edge_target : ∀ e ∈ edges, ∃ n ∈ nodes, n.id = e.target ∧ e.toPort ∈ n.ports
  endpoint_node : ∀ e ∈ endpoints, ∃ n ∈ nodes, n.id = e.node ∧ e.port ∈ n.ports

/-- `FabricSnapshot`. -/
structure FabricSnapshot extends SnapshotRecords where
  digest : Sha256Digest

section Encoding

/-- `FabricSnapshot::Encode`, node part. -/
def NodeRecord.encode (writer : ByteWriter) (node : NodeRecord) : ByteWriter :=
  let writer := (writer.id node.id).id node.attachment
  let writer := (writer.u64 node.entityGeneration.value).u64 node.structuralGeneration.value
  node.ports.foldl ByteWriter.id (writer.varU64 node.ports.length)

/-- `FabricSnapshot::Encode`, edge part. -/
def EdgeRecord.encode (writer : ByteWriter) (edge : EdgeRecord) : ByteWriter :=
  let writer := ((writer.id edge.id).id edge.source).id edge.target
  let writer := (writer.id edge.fromPort).id edge.toPort
  let writer := (writer.u32 edge.layer.value).u32 edge.relationship.value
  let writer := writer.u32 edge.staticCost.value
  (writer.u64 edge.entityGeneration.value).u64 edge.structuralGeneration.value

/-- `FabricSnapshot::Encode`, endpoint part. -/
def EndpointRecord.encode (writer : ByteWriter) (endpoint : EndpointRecord) : ByteWriter :=
  let writer := (writer.id endpoint.id).u32 endpoint.endpointClass.value
  ((writer.id endpoint.node).id endpoint.port).u64 endpoint.entityGeneration.value

/-- `FabricSnapshot::Encode`, binding part. -/
def CapabilityBinding.encode (writer : ByteWriter) (binding : CapabilityBinding) : ByteWriter :=
  let writer := writer.u32 binding.subject.kind.value
  ((writer.fixedBytes binding.subject.bytes.toList).id binding.capability).u64 binding.value.value

/-- `FabricSnapshot::Encode`, failure-domain part. -/
def FailureDomainRecord.encode (writer : ByteWriter) (record : FailureDomainRecord) : ByteWriter :=
  let writer := (writer.id record.domain).id record.riskClass
  record.members.foldl
    (fun writer member => (writer.u32 member.kind.value).fixedBytes member.bytes.toList)
    (writer.varU64 record.members.length)

/-- `FabricSnapshot::Encode`: the canonical encoding used for the snapshot digest. -/
def SnapshotRecords.encode (s : SnapshotRecords) (writer : ByteWriter) : ByteWriter :=
  let writer := s.generations.encode (writer.u32 pathEncodingVersion)
  let writer := writer.u32 s.evidenceSource.value
  let writer := s.nodes.foldl NodeRecord.encode (writer.varU64 s.nodes.length)
  let writer := s.edges.foldl EdgeRecord.encode (writer.varU64 s.edges.length)
  let writer := s.endpoints.foldl EndpointRecord.encode (writer.varU64 s.endpoints.length)
  let writer := s.linkStates.records.foldl
    (fun writer record => (writer.id record.link).u32 record.state.value)
    (writer.varU64 s.linkStates.records.length)
  let writer := s.portStates.records.foldl
    (fun writer record => (writer.id record.port).u32 record.state.value)
    (writer.varU64 s.portStates.records.length)
  let writer := s.capabilities.bindings.foldl CapabilityBinding.encode
    (writer.varU64 s.capabilities.bindings.length)
  s.failureDomains.domains.foldl FailureDomainRecord.encode
    ((writer.varU64 s.failureDomains.domains.length).bool s.failureDomains.membershipComplete)

end Encoding

namespace FabricSnapshot

/-- `FabricSnapshot::Id`. -/
def id (s : FabricSnapshot) : SnapshotId := FixedId.fromDigest s.digest

/-- `FabricSnapshot::FindNode`. -/
def findNode (s : FabricSnapshot) (id : NodeId) : Option NodeRecord :=
  find? NodeRecord.id s.nodes id

/-- `FabricSnapshot::FindEdge`. -/
def findEdge (s : FabricSnapshot) (id : LinkId) : Option EdgeRecord :=
  find? EdgeRecord.id s.edges id

/-- `FabricSnapshot::FindEndpoint`. -/
def findEndpoint (s : FabricSnapshot) (id : EndpointId) : Option EndpointRecord :=
  find? EndpointRecord.id s.endpoints id

/-- `FabricSnapshot::Evidence`: the publish sequence is bound at capture. -/
def evidence (s : FabricSnapshot) : EvidenceVector where
  snapshot := s.id
  generations := s.generations
  source := s.evidenceSource

/-- The published records have pairwise different keys. -/
structure UniqueKeys (s : FabricSnapshot) : Prop where
  links : (s.linkStates.records.map (·.link)).Nodup
  ports : (s.portStates.records.map (·.port)).Nodup
  bindings : (s.capabilities.bindings.map (·.key)).Nodup
  domains : (s.failureDomains.domains.map (·.domain)).Nodup

variable {s : FabricSnapshot}

theorem findNode_eq_some_iff {id : NodeId} {node : NodeRecord} :
    s.findNode id = some node ↔ node ∈ s.nodes ∧ node.id = id :=
  find?_eq_some_iff s.nodes_sorted

theorem findEndpoint_eq_some_iff {id : EndpointId} {endpoint : EndpointRecord} :
    s.findEndpoint id = some endpoint ↔ endpoint ∈ s.endpoints ∧ endpoint.id = id :=
  find?_eq_some_iff s.endpoints_sorted

/-- The positions of nodes and edges fit 32 bits. -/
theorem nodes_length_lt : s.nodes.length < 2 ^ 32 :=
  s.nodes_length.trans_lt s.limits.maxNodes.toNat_lt

theorem edges_length_lt : s.edges.length < 2 ^ 32 :=
  s.edges_length.trans_lt s.limits.maxEdges.toNat_lt

end FabricSnapshot

/-! ## Construction -/

/-- `RelationshipMatchesLayer`. -/
def relationshipMatchesLayer (relationship : RelationshipType) (layer : PathLayer) : Bool :=
  match relationship with
  | .directLink => layer = .physical
  | .portPairing => layer = .physical
  | .logicalAdjacency => layer = .logical
  | .tunnelEncapsulation => layer = .tunnel ∨ layer = .overlay

/-- The error of a `SnapshotBuildResult`. -/
structure BuildError where
  error : DiagnosticCode
  detail : String
  deriving DecidableEq

/-- `FabricSnapshotBuilder`: the records accepted so far. -/
structure FabricSnapshotBuilder where
  limits : ResourceLimits
  generations : SnapshotGenerations
  evidenceSource : EvidenceSource
  nodes : List NodeRecord
  edges : List EdgeRecord
  endpoints : List EndpointRecord
  linkStates : List LinkStateRecord
  portStates : List PortStateRecord
  capabilities : List CapabilityBinding
  failureDomains : List FailureDomainRecord
  membershipComplete : Bool
  diagnostics : List DiagnosticCode
  nodes_length : nodes.length ≤ limits.maxNodes.toNat
  edges_length : edges.length ≤ limits.maxEdges.toNat
  endpoints_length : endpoints.length ≤ limits.maxEndpoints.toNat
  ports_length : ∀ n ∈ nodes, n.ports.length ≤ limits.maxPortsPerNode.toNat
  nodes_valid : ∀ n ∈ nodes, n.id.isValid = true
  edges_valid : ∀ e ∈ edges, e.id.isValid = true ∧ e.fromPort.isValid = true ∧
    e.toPort.isValid = true
  ports_sorted : ∀ n ∈ nodes, n.ports.Pairwise (· ≤ ·)
  no_self_loop : ∀ e ∈ edges, e.source ≠ e.target

namespace FabricSnapshotBuilder

/-- The constructor `FabricSnapshotBuilder(limits)`. -/
def new (limits : ResourceLimits) : FabricSnapshotBuilder where
  limits := limits
  generations := {}
  evidenceSource := .synthetic
  nodes := []
  edges := []
  endpoints := []
  linkStates := []
  portStates := []
  capabilities := []
  failureDomains := []
  membershipComplete := false
  diagnostics := []
  nodes_length := Nat.zero_le _
  edges_length := Nat.zero_le _
  endpoints_length := Nat.zero_le _
  ports_length := by simp
  nodes_valid := by simp
  edges_valid := by simp
  ports_sorted := by simp
  no_self_loop := by simp

/-- `FabricSnapshotBuilder::SetGenerations`. -/
def setGenerations (b : FabricSnapshotBuilder) (generations : SnapshotGenerations) :
    FabricSnapshotBuilder := { b with generations }

/-- `FabricSnapshotBuilder::SetSource`. -/
def setSource (b : FabricSnapshotBuilder) (evidenceSource : EvidenceSource) :
    FabricSnapshotBuilder := { b with evidenceSource }

/-- `FabricSnapshotBuilder::SetLinkStates`. -/
def setLinkStates (b : FabricSnapshotBuilder) (records : List LinkStateRecord) :
    FabricSnapshotBuilder := { b with linkStates := records }

/-- `FabricSnapshotBuilder::SetPortStates`. -/
def setPortStates (b : FabricSnapshotBuilder) (records : List PortStateRecord) :
    FabricSnapshotBuilder := { b with portStates := records }

/-- `FabricSnapshotBuilder::SetCapabilities`. -/
def setCapabilities (b : FabricSnapshotBuilder) (bindings : List CapabilityBinding) :
    FabricSnapshotBuilder := { b with capabilities := bindings }

/-- `FabricSnapshotBuilder::SetFailureDomains`. -/
def setFailureDomains (b : FabricSnapshotBuilder) (domains : List FailureDomainRecord)
    (membershipComplete : Bool) : FabricSnapshotBuilder :=
  { b with failureDomains := domains, membershipComplete }

/-- `FabricSnapshotBuilder::Reject`. -/
def reject (b : FabricSnapshotBuilder) (code : DiagnosticCode) : FabricSnapshotBuilder :=
  { b with diagnostics := b.diagnostics ++ [code] }

/-- The reason `AddNode` rejects a node. -/
def nodeError (b : FabricSnapshotBuilder) (node : NodeRecord) : Option DiagnosticCode :=
  if exceeds (b.nodes.length + 1) b.limits.maxNodes then some .graphTooLarge
  else if !node.id.isValid then some .malformedIdentifier
  else if node.ports.any (fun port => !port.isValid) then some .malformedIdentifier
  else if exceeds node.ports.length b.limits.maxPortsPerNode then some .graphTooLarge
  else if hasDuplicate node.ports then some .duplicateIdentifier
  else if node.structuralGeneration.value > b.generations.topology.value then
    some .topologyGenerationMismatch
  else none

/-- The reason `AddEdge` rejects an edge. -/
def edgeError (b : FabricSnapshotBuilder) (edge : EdgeRecord) : Option DiagnosticCode :=
  if exceeds (b.edges.length + 1) b.limits.maxEdges then some .tooManyEdges
  else if !edge.id.isValid || !edge.source.isValid || !edge.target.isValid ||
      !edge.fromPort.isValid || !edge.toPort.isValid then some .malformedIdentifier
  else if edge.source = edge.target then some .selfLoopRejected
  else if !relationshipMatchesLayer edge.relationship edge.layer then some .layerMismatch
  else if edge.structuralGeneration.value > b.generations.topology.value then
    some .topologyGenerationMismatch
  else none

/-- The reason `AddEndpoint` rejects an endpoint. -/
def endpointError (b : FabricSnapshotBuilder) (endpoint : EndpointRecord) :
    Option DiagnosticCode :=
  if exceeds (b.endpoints.length + 1) b.limits.maxEndpoints then some .graphTooLarge
  else if !endpoint.id.isValid || !endpoint.node.isValid || !endpoint.port.isValid then
    some .malformedIdentifier
  else none

theorem length_of_nodeError {b : FabricSnapshotBuilder} {node : NodeRecord}
    (h : b.nodeError node = none) : b.nodes.length + 1 ≤ b.limits.maxNodes.toNat := by
  unfold nodeError at h
  split_ifs at h with hl
  simpa [exceeds] using hl

theorem ports_length_of_nodeError {b : FabricSnapshotBuilder} {node : NodeRecord}
    (h : b.nodeError node = none) : node.ports.length ≤ b.limits.maxPortsPerNode.toNat := by
  unfold nodeError at h
  split_ifs at h with _ _ _ hl
  simpa [exceeds] using hl

theorem valid_of_nodeError {b : FabricSnapshotBuilder} {node : NodeRecord}
    (h : b.nodeError node = none) : node.id.isValid = true := by
  unfold nodeError at h
  split_ifs at h with _ hv
  simpa using hv

theorem length_of_endpointError {b : FabricSnapshotBuilder} {endpoint : EndpointRecord}
    (h : b.endpointError endpoint = none) :
    b.endpoints.length + 1 ≤ b.limits.maxEndpoints.toNat := by
  unfold endpointError at h
  split_ifs at h with hl
  simpa [exceeds] using hl

theorem length_of_edgeError {b : FabricSnapshotBuilder} {edge : EdgeRecord}
    (h : b.edgeError edge = none) : b.edges.length + 1 ≤ b.limits.maxEdges.toNat := by
  unfold edgeError at h
  split_ifs at h with hl
  simpa [exceeds] using hl

theorem valid_of_edgeError {b : FabricSnapshotBuilder} {edge : EdgeRecord}
    (h : b.edgeError edge = none) : edge.id.isValid = true ∧ edge.fromPort.isValid = true ∧
      edge.toPort.isValid = true := by
  unfold edgeError at h
  split_ifs at h with _ hv
  simp only [Bool.or_eq_true, Bool.not_eq_true', not_or, Bool.not_eq_false] at hv
  exact ⟨hv.1.1.1.1, hv.1.2, hv.2⟩

theorem ne_of_edgeError {b : FabricSnapshotBuilder} {edge : EdgeRecord}
    (h : b.edgeError edge = none) : edge.source ≠ edge.target := by
  unfold edgeError at h
  split_ifs at h with _ _ hne
  exact hne

/-- `FabricSnapshotBuilder::AddNode`: the ports of an accepted node are stored sorted. -/
def addNode (b : FabricSnapshotBuilder) (node : NodeRecord) : FabricSnapshotBuilder :=
  match h : b.nodeError node with
  | some code => b.reject code
  | none =>
    { b with
      nodes := b.nodes ++ [{ node with ports := sortBy id node.ports }]
      nodes_length := by
        simpa using length_of_nodeError h
      ports_length := by
        intro n hn
        rcases List.mem_append.mp hn with hn | hn
        · exact b.ports_length n hn
        · rw [List.mem_singleton.mp hn]
          exact (length_sortBy _ _).trans_le (ports_length_of_nodeError h)
      nodes_valid := by
        intro n hn
        rcases List.mem_append.mp hn with hn | hn
        · exact b.nodes_valid n hn
        · have hv := valid_of_nodeError h
          rw [List.mem_singleton.mp hn]
          exact hv
      ports_sorted := by
        intro n hn
        rcases List.mem_append.mp hn with hn | hn
        · exact b.ports_sorted n hn
        · rw [List.mem_singleton.mp hn]
          exact pairwise_sortBy id node.ports }

/-- `FabricSnapshotBuilder::AddEdge`. -/
def addEdge (b : FabricSnapshotBuilder) (edge : EdgeRecord) : FabricSnapshotBuilder :=
  match h : b.edgeError edge with
  | some code => b.reject code
  | none =>
    { b with
      edges := b.edges ++ [edge]
      edges_length := by
        simpa using length_of_edgeError h
      edges_valid := by
        intro e he
        rcases List.mem_append.mp he with he | he
        · exact b.edges_valid e he
        · rw [List.mem_singleton.mp he]
          exact valid_of_edgeError h
      no_self_loop := by
        intro e he
        rcases List.mem_append.mp he with he | he
        · exact b.no_self_loop e he
        · rw [List.mem_singleton.mp he]
          exact ne_of_edgeError h }

/-- `FabricSnapshotBuilder::AddEndpoint`. -/
def addEndpoint (b : FabricSnapshotBuilder) (endpoint : EndpointRecord) : FabricSnapshotBuilder :=
  match h : b.endpointError endpoint with
  | some code => b.reject code
  | none =>
    { b with
      endpoints := b.endpoints ++ [endpoint]
      endpoints_length := by
        simpa using length_of_endpointError h }

/-! ### Build -/

/-- The first dangling reference of an edge. -/
def edgeReferenceError (nodes : List NodeRecord) (edge : EdgeRecord) : Option BuildError :=
  let error (what : String) : Option BuildError :=
    some ⟨.noStructuralPath, "edge " ++ edge.id.toString ++ " references " ++ what⟩
  match find? NodeRecord.id nodes edge.source with
  | none => error "unknown source node"
  | some node =>
    if !binarySearch node.ports edge.fromPort then
      error "a port not published by its source node"
    else
      match find? NodeRecord.id nodes edge.target with
      | none => error "unknown destination node"
      | some node =>
        if !binarySearch node.ports edge.toPort then
          error "a port not published by its destination node"
        else none

/-- The first dangling reference of an endpoint. -/
def endpointReferenceError (nodes : List NodeRecord) (endpoint : EndpointRecord) :
    Option BuildError :=
  match find? NodeRecord.id nodes endpoint.node with
  | none => some ⟨.unknownEndpoint,
      "endpoint " ++ endpoint.id.toString ++ " references an unknown node"⟩
  | some node =>
    if !binarySearch node.ports endpoint.port then some ⟨.unknownEndpoint,
      "endpoint " ++ endpoint.id.toString ++ " references a port not published by its node"⟩
    else none

/-- The limits on the consumed records. -/
def recordLimitError (b : FabricSnapshotBuilder) : Option BuildError :=
  if exceeds b.linkStates.length b.limits.maxLinkStateRecords then
    some ⟨.graphTooLarge, "link state record limit exceeded"⟩
  else if exceeds b.portStates.length b.limits.maxPortStateRecords then
    some ⟨.graphTooLarge, "port state record limit exceeded"⟩
  else if exceeds b.capabilities.length b.limits.maxCapabilityBindings then
    some ⟨.graphTooLarge, "capability binding limit exceeded"⟩
  else if exceeds b.failureDomains.length b.limits.maxFailureDomains then
    some ⟨.graphTooLarge, "failure domain limit exceeded"⟩
  else none

/-- The duplicate tests on the consumed records, which compare neighbours in the given order. -/
def recordDuplicateError (b : FabricSnapshotBuilder) : Option BuildError :=
  if hasAdjacent (fun p q => decide (p.link = q.link)) b.linkStates then
    some ⟨.duplicateIdentifier, "duplicate link state record"⟩
  else if hasAdjacent (fun p q => decide (p.port = q.port)) b.portStates then
    some ⟨.duplicateIdentifier, "duplicate port state record"⟩
  else if hasAdjacent (fun p q => decide (p.key = q.key)) b.capabilities then
    some ⟨.duplicateIdentifier, "duplicate capability binding"⟩
  else if hasAdjacent (fun p q => decide (p.domain = q.domain)) b.failureDomains then
    some ⟨.duplicateIdentifier, "duplicate failure domain"⟩
  else none

/-- The check of a failure domain. -/
def failureDomainError (limits : ResourceLimits) (record : FailureDomainRecord) :
    Option BuildError :=
  if !record.domain.isValid then some ⟨.malformedIdentifier, "failure domain identity is nil"⟩
  else if exceeds record.members.length limits.maxMembersPerFailureDomain then
    some ⟨.graphTooLarge, "failure domain member limit exceeded"⟩
  else none

/-- A failure domain with its members sorted and listed once. -/
def normalizeDomain (record : FailureDomainRecord) : FailureDomainRecord :=
  { record with members := unique (sortBy id record.members) }

theorem node_of_find? {nodes : List NodeRecord} (hp : ∀ n ∈ nodes, n.ports.Pairwise (· ≤ ·))
    {id : NodeId} {node : NodeRecord} {port : PortId}
    (hf : find? NodeRecord.id nodes id = some node) (hb : binarySearch node.ports port = true) :
    ∃ n ∈ nodes, n.id = id ∧ port ∈ n.ports := by
  obtain ⟨hm, hid⟩ := mem_of_find? hf
  exact ⟨node, hm, hid, (binarySearch_iff (hp node hm)).mp hb⟩

theorem references_of_edgeReferenceError {nodes : List NodeRecord}
    (hp : ∀ n ∈ nodes, n.ports.Pairwise (· ≤ ·)) {edge : EdgeRecord}
    (h : edgeReferenceError nodes edge = none) :
    (∃ n ∈ nodes, n.id = edge.source ∧ edge.fromPort ∈ n.ports) ∧
      ∃ n ∈ nodes, n.id = edge.target ∧ edge.toPort ∈ n.ports := by
  unfold edgeReferenceError at h
  split at h
  · cases h
  · next n hn =>
    split_ifs at h with hs
    split at h
    · cases h
    · next m hm =>
      split_ifs at h with ht
      simp only [Bool.not_eq_true', Bool.not_eq_false] at hs ht
      exact ⟨node_of_find? hp hn hs, node_of_find? hp hm ht⟩

theorem reference_of_endpointReferenceError {nodes : List NodeRecord}
    (hp : ∀ n ∈ nodes, n.ports.Pairwise (· ≤ ·)) {endpoint : EndpointRecord}
    (h : endpointReferenceError nodes endpoint = none) :
    ∃ n ∈ nodes, n.id = endpoint.node ∧ endpoint.port ∈ n.ports := by
  unfold endpointReferenceError at h
  split at h
  · cases h
  · next n hn =>
    split_ifs at h with hs
    simp only [Bool.not_eq_true', Bool.not_eq_false] at hs
    exact node_of_find? hp hn hs

theorem length_of_recordLimitError {b : FabricSnapshotBuilder} (h : b.recordLimitError = none) :
    b.linkStates.length ≤ b.limits.maxLinkStateRecords.toNat ∧
      b.portStates.length ≤ b.limits.maxPortStateRecords.toNat ∧
      b.capabilities.length ≤ b.limits.maxCapabilityBindings.toNat ∧
      b.failureDomains.length ≤ b.limits.maxFailureDomains.toNat := by
  unfold recordLimitError at h
  split_ifs at h with hl hp hc hd
  simp only [exceeds, decide_eq_true_eq, not_lt] at hl hp hc hd
  exact ⟨hl, hp, hc, hd⟩

theorem length_of_failureDomainError {limits : ResourceLimits} {record : FailureDomainRecord}
    (h : failureDomainError limits record = none) :
    record.members.length ≤ limits.maxMembersPerFailureDomain.toNat := by
  unfold failureDomainError at h
  split_ifs at h with _ hl
  simpa [exceeds] using hl

/-- A domain is not longer than the record it is made of. -/
theorem members_length_ofDomains {limits : ResourceLimits} {domains : List FailureDomainRecord}
    {complete : Bool} (h : ∀ record ∈ domains, failureDomainError limits record = none) :
    ∀ d ∈ (FailureDomainView.ofDomains (domains.map normalizeDomain) complete).domains,
      d.members.length ≤ limits.maxMembersPerFailureDomain.toNat := by
  intro d hd
  obtain ⟨record, hrecord, rfl⟩ := List.mem_map.mp ((mem_sortBy _ _).mp hd)
  refine le_trans ?_ (length_of_failureDomainError (h record hrecord))
  exact (unique_sublist _).length_le.trans_eq (length_sortBy id record.members)

theorem ports_sorted_sortBy (b : FabricSnapshotBuilder) :
    ∀ n ∈ sortBy NodeRecord.id b.nodes, n.ports.Pairwise (· ≤ ·) :=
  fun n hn => b.ports_sorted n ((mem_sortBy _ _).mp hn)

/-- The records of `Build`, with the checks in the order of the source. -/
def records (b : FabricSnapshotBuilder) : Except BuildError SnapshotRecords :=
  match validateLimits b.limits with
  | some error => .error ⟨error, "resource limits are incoherent"⟩
  | none =>
    if hn : strictlySortedBy NodeRecord.id (sortBy NodeRecord.id b.nodes) = true then
      if he : strictlySortedBy EdgeRecord.id (sortBy EdgeRecord.id b.edges) = true then
        match hr : (sortBy EdgeRecord.id b.edges).findSome?
            (edgeReferenceError (sortBy NodeRecord.id b.nodes)) with
        | some error => .error error
        | none =>
          if hp : strictlySortedBy EndpointRecord.id (sortBy EndpointRecord.id b.endpoints) = true then
            match hq : (sortBy EndpointRecord.id b.endpoints).findSome?
                (endpointReferenceError (sortBy NodeRecord.id b.nodes)) with
            | some error => .error error
            | none =>
              match hl : b.recordLimitError.or (b.recordDuplicateError.or
                  (b.failureDomains.findSome? (failureDomainError b.limits))) with
              | some error => .error error
              | none => .ok {
                generations := b.generations
                evidenceSource := b.evidenceSource
                limits := b.limits
                nodes := sortBy NodeRecord.id b.nodes
                edges := sortBy EdgeRecord.id b.edges
                endpoints := sortBy EndpointRecord.id b.endpoints
                linkStates := .ofRecords b.linkStates
                portStates := .ofRecords b.portStates
                capabilities := .ofBindings b.capabilities
                failureDomains :=
                  .ofDomains (b.failureDomains.map normalizeDomain) b.membershipComplete
                nodes_sorted := strictlySortedBy_iff.mp hn
                edges_sorted := strictlySortedBy_iff.mp he
                endpoints_sorted := strictlySortedBy_iff.mp hp
                nodes_length := (length_sortBy _ _).trans_le b.nodes_length
                edges_length := (length_sortBy _ _).trans_le b.edges_length
                endpoints_length := (length_sortBy _ _).trans_le b.endpoints_length
                ports_length := fun n h => b.ports_length n ((mem_sortBy _ _).mp h)
                linkStates_length := (length_sortBy _ _).trans_le
                  (length_of_recordLimitError (Option.or_eq_none_iff.mp hl).1).1
                portStates_length := (length_sortBy _ _).trans_le
                  (length_of_recordLimitError (Option.or_eq_none_iff.mp hl).1).2.1
                bindings_length := (length_sortBy _ _).trans_le
                  (length_of_recordLimitError (Option.or_eq_none_iff.mp hl).1).2.2.1
                domains_length := ((length_sortBy _ _).trans (List.length_map _)).trans_le
                  (length_of_recordLimitError (Option.or_eq_none_iff.mp hl).1).2.2.2
                members_length := members_length_ofDomains (List.findSome?_eq_none_iff.mp
                  (Option.or_eq_none_iff.mp (Option.or_eq_none_iff.mp hl).2).2)
                nodes_valid := fun n h => b.nodes_valid n ((mem_sortBy _ _).mp h)
                edges_valid := fun e h => b.edges_valid e ((mem_sortBy _ _).mp h)
                no_self_loop := fun e h => b.no_self_loop e ((mem_sortBy _ _).mp h)
                edge_source := fun e h => (references_of_edgeReferenceError b.ports_sorted_sortBy
                  (List.findSome?_eq_none_iff.mp hr e h)).1
                edge_target := fun e h => (references_of_edgeReferenceError b.ports_sorted_sortBy
                  (List.findSome?_eq_none_iff.mp hr e h)).2
                endpoint_node := fun e h => reference_of_endpointReferenceError b.ports_sorted_sortBy
                  (List.findSome?_eq_none_iff.mp hq e h) }
          else .error ⟨.ambiguousEndpoint, "duplicate endpoint identity"⟩
      else .error ⟨.duplicateIdentifier, "duplicate link identity"⟩
    else .error ⟨.duplicateIdentifier, "duplicate node identity"⟩

/-- The number of records behind the encoding ceiling. -/
def recordCount (b : FabricSnapshotBuilder) : ℕ :=
  b.nodes.length + b.edges.length + b.endpoints.length + b.linkStates.length +
    b.portStates.length + b.capabilities.length + b.failureDomains.length

/-- `FabricSnapshotBuilder::Build`, with `sha` for `Sha256::Hash`. -/
def build (sha : List UInt8 → Sha256Digest) (b : FabricSnapshotBuilder) :
    Except BuildError FabricSnapshot :=
  match b.records with
  | .error error => .error error
  | .ok s =>
    let writer := s.encode (ByteWriter.new (1024 + b.recordCount * 128))
    if writer.overflowed then .error ⟨.graphTooLarge, "snapshot encoding exceeded its ceiling"⟩
    else if (sha writer.data).isZero then
      .error ⟨.persistenceCorrupt, "snapshot digest is degenerate"⟩
    else .ok { s with digest := sha writer.data }

/-- The records are those that the builder holds, sorted. -/
structure Publishes (b : FabricSnapshotBuilder) (r : SnapshotRecords) : Prop where
  generations : r.generations = b.generations
  evidenceSource : r.evidenceSource = b.evidenceSource
  limits : r.limits = b.limits
  nodes : r.nodes = sortBy NodeRecord.id b.nodes
  edges : r.edges = sortBy EdgeRecord.id b.edges
  endpoints : r.endpoints = sortBy EndpointRecord.id b.endpoints
  linkStates : r.linkStates = .ofRecords b.linkStates
  portStates : r.portStates = .ofRecords b.portStates
  capabilities : r.capabilities = .ofBindings b.capabilities
  failureDomains : r.failureDomains =
    .ofDomains (b.failureDomains.map normalizeDomain) b.membershipComplete

/-- **The records of a successful build** are those of the builder, under coherent limits, and the
consumed ones have passed their checks. -/
theorem records_eq_ok {b : FabricSnapshotBuilder} {r : SnapshotRecords} (h : b.records = .ok r) :
    b.Publishes r ∧ validateLimits b.limits = none ∧
      b.recordLimitError.or (b.recordDuplicateError.or
        (b.failureDomains.findSome? (failureDomainError b.limits))) = none := by
  unfold records at h
  split at h
  · cases h
  · next hv =>
    split_ifs at h
    · split at h
      · cases h
      · split at h
        · cases h
        · split at h
          · cases h
          · next hl =>
            cases h
            exact ⟨⟨rfl, rfl, rfl, rfl, rfl, rfl, rfl, rfl, rfl, rfl⟩, hv, hl⟩
    · split at h <;> cases h

/-- A successful build returns its records under a digest. -/
theorem records_of_build {sha : List UInt8 → Sha256Digest} {b : FabricSnapshotBuilder}
    {s : FabricSnapshot} (h : b.build sha = .ok s) : b.records = .ok s.toSnapshotRecords := by
  unfold build at h
  split at h
  · cases h
  · next r hr =>
    dsimp only at h
    split_ifs at h
    cases h
    exact hr

/-! ## Fabrics from a list of links -/

/-- A node with a port of its own and one for every link that it is joined by. -/
def nodeOf (links : List (UInt8 × UInt8)) (n : UInt8) : NodeRecord where
  id := .tagged 0 n
  attachment := .tagged 0 n
  entityGeneration := default
  structuralGeneration := default
  ports := .tagged 0 n ::
    (links.zipIdx.filter fun (link, _) => link.1 = n ∨ link.2 = n).map
      fun (_, i) => .tagged (.ofNat (i + 1)) n

/-- The physical link at a position of the list. -/
def edgeOf (link : UInt8 × UInt8) (i : ℕ) : EdgeRecord where
  id := .tagged 0 (.ofNat (i + 1))
  source := .tagged 0 link.1
  target := .tagged 0 link.2
  fromPort := .tagged (.ofNat (i + 1)) link.1
  toPort := .tagged (.ofNat (i + 1)) link.2

/-- The endpoint at the port of its own of a node. -/
def endpointOf (n : UInt8) : EndpointRecord where
  id := .tagged 0 n
  node := .tagged 0 n
  port := .tagged 0 n
  entityGeneration := default

/-- Nodes with an endpoint each and links between them, everything up. -/
def ofLinks (nodes : List UInt8) (links : List (UInt8 × UInt8)) : FabricSnapshotBuilder :=
  let edges := links.zipIdx.map fun (link, i) => edgeOf link i
  let b := (nodes.map (nodeOf links)).foldl addNode (new {})
  let b := edges.foldl addEdge b
  let b := (nodes.map endpointOf).foldl addEndpoint b
  let b := b.setLinkStates (edges.map fun edge => ⟨edge.id, .up⟩)
  b.setPortStates (edges.flatMap fun edge => [⟨edge.fromPort, .up⟩, ⟨edge.toPort, .up⟩])

/-- The records that pass the checks of `Build`, under a given digest. -/
def snapshotWith (b : FabricSnapshotBuilder) (h : b.records.toOption.isSome = true)
    (digest : Sha256Digest) : FabricSnapshot :=
  { b.records.toOption.get h with digest }

/-- A result that is present is that of a success. -/
theorem eq_ok_get {ε α : Type} {x : Except ε α} (h : x.toOption.isSome = true) :
    x = .ok (x.toOption.get h) := by
  cases x with
  | error e => cases h
  | ok a => rfl

end FabricSnapshotBuilder

end PathPlanner
