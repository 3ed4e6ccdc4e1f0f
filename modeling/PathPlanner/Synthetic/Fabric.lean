import PathPlanner.Synthetic.Families

/-!
# Synthetic fabrics

A drafted topology is published through the snapshot builder: a node for each number, with a port for
each edge end and one more for its endpoint, a link for each edge, and the records of the state views,
which are drawn from one stream.

## Main definitions

* `fabricLabel`, `idFromLabel`: the identities of the records
* `nodePorts`, `pushLink`: the ports of a node, and how the links take them in turn
* `buildSyntheticFabric`: `BuildSyntheticFabric`
* `FabricSnapshot.portsInUse`: the ports that links and endpoints use at a node

## Main results

* `generateSyntheticFabric_keepsPromise`: accepted options keep the promise of their family, and each
  edge end and each endpoint has a port of its own
-/

namespace PathPlanner

open SortedList

/-! ## Identities -/

/-- `FabricLabel`. -/
def fabricLabel (kind : String) (family : ℕ) (seed : BitVec 64) (first second : ℕ) : String :=
  kind ++ ":" ++ toString family ++ ":" ++ toString seed.toNat ++ ":" ++ toString first ++ ":" ++
    toString second

/-- `IdFromLabel`, with `sha` for `Sha256::Hash`. No proof looks into an identity. -/
@[irreducible] def idFromLabel {Tag : Type} {n : ℕ} (sha : List UInt8 → Sha256Digest) (label : String) :
    FixedId Tag n :=
  .fromDigest (sha label.toUTF8.toList)

/-! ## Draws -/

/-- `RelationshipForLayer`. -/
def relationshipForLayer : PathLayer → Option RelationshipType
  | .physical => some .directLink
  | .logical => some .logicalAdjacency
  | .tunnel | .overlay => some .tunnelEncapsulation
  | .undeclared _ _ => none

/-- `NextStaticCost`: a sum that exceeds 32 bits is cut off. -/
def nextStaticCost (random : SeededRandom) (options : SyntheticOptions) (uniform : Bool) :
    ℕ × SeededRandom :=
  if options.staticCostSpread = 0 ∨ uniform then (options.staticCostBase.toNat, random)
  else
    let (delta, random) := random.below options.staticCostSpread
    (min (options.staticCostBase.toNat + delta) (2 ^ 32 - 1), random)

/-- `PickLinkState`. -/
def pickLinkState (down degraded unknown : Bool) : LinkState :=
  if down then .down else if degraded then .degraded else if unknown then .unknown else .up

/-- The draws for a link: its cost, and the state that is published for it, unless it is absent. -/
def drawLink (random : SeededRandom) (options : SyntheticOptions) (uniform : Bool) :
    (ℕ × Option LinkState) × SeededRandom :=
  let (staticCost, random) := nextStaticCost random options uniform
  let (absent, random) := random.percent options.percentWithoutLinkStateRecord
  let (down, random) := random.percent options.percentDown
  let (degraded, random) := random.percent options.percentDegraded
  let (unknown, random) := random.percent options.percentUnknown
  ((staticCost, if absent then none else some (pickLinkState down degraded unknown)), random)

/-- The draws for the ports, one after the other. -/
def drawPortStates (options : SyntheticOptions) : SeededRandom → List PortId → List PortStateRecord
  | _, [] => []
  | random, port :: ports =>
    let (disabled, random) := random.percent options.percentPortDisabled
    let (unknown, random) := random.percent options.percentUnknown
    ⟨port, if disabled then .adminDisabled else if unknown then .unknown else .up⟩ ::
      drawPortStates options random ports

/-! ## Records -/

section Records

variable (sha : List UInt8 → Sha256Digest) (options : SyntheticOptions) (topology : Topology)

/-- The identity of a record of the fabric. -/
def fabricId {Tag : Type} {n : ℕ} (kind : String) (first second : ℕ) : FixedId Tag n :=
  idFromLabel sha (fabricLabel kind options.family.value options.seed first second)

/-- An entry of `node_ids`. -/
def syntheticNodeId (i : ℕ) : NodeId := fabricId sha options "n" i 0

/-- An entry of `node_ports`: a port for each edge end, and one more. -/
def nodePorts (i : ℕ) : List PortId :=
  (List.range ((topology.degree.getD i 0 + 1) % 2 ^ 32)).map fun port =>
    fabricId sha options "p" i port

/-- The node of a number. -/
def nodeRecord (i : ℕ) : NodeRecord where
  id := syntheticNodeId sha options i
  attachment := fabricId sha options "s" i 0
  entityGeneration := .ofNat 1
  structuralGeneration := .ofNat 1
  ports := nodePorts sha options topology i

/-- The link of an edge, at the next ports of its nodes. -/
def edgeRecord (relationship : RelationshipType) (index : ℕ) (draft : EdgeDraft)
    (fromUsed toUsed staticCost : ℕ) : EdgeRecord where
  id := fabricId sha options "l" index 0
  source := syntheticNodeId sha options draft.1
  target := syntheticNodeId sha options draft.2
  fromPort := (nodePorts sha options topology draft.1).getD fromUsed .nil
  toPort := (nodePorts sha options topology draft.2).getD toUsed .nil
  layer := options.layer
  relationship := relationship
  staticCost := .ofNat staticCost
  entityGeneration := .ofNat 1
  structuralGeneration := .ofNat 1

/-- The bindings of the subjects, in their order. -/
def bindingRecords (count : ℕ) (subjects : List SubjectKey) : List CapabilityBinding :=
  subjects.flatMap fun subject => (List.range count).map fun capability =>
    ⟨subject, fabricId sha options "c" capability 0, .ofNat (1 + capability)⟩

/-- An entry of `domain_members`. -/
def domainMembers (count domain : ℕ) : ℕ :=
  (List.range topology.nodeCount).countP (· % count = domain) +
    topology.edges.countP (·.1 % count = domain)

/-- A failure domain: the nodes and then the links that are assigned to it in turn. -/
def failureDomainRecord (linkIds : List LinkId) (count domain : ℕ) : FailureDomainRecord where
  domain := fabricId sha options "f" domain 0
  riskClass := fabricId sha options "fc" (domain % 2) 0
  members :=
    ((List.range topology.nodeCount).filter (· % count = domain)).map
        (fun i => .forNode (syntheticNodeId sha options i)) ++
      ((topology.edges.zip linkIds).filter (·.1.1 % count = domain)).map fun x => .forLink x.2

/-- The endpoint of a node, at the last one of its ports. -/
def endpointRecord (i : ℕ) : EndpointRecord where
  id := fabricId sha options "e" i 0
  endpointClass := .endpoint
  node := syntheticNodeId sha options i
  port := (nodePorts sha options topology i).getLastD .nil
  entityGeneration := .ofNat 1

end Records

/-! ## Construction -/

/-- `BuilderFailure`: the last diagnostic. -/
def builderFailure (builder : FabricSnapshotBuilder) : BuildError :=
  ⟨builder.diagnostics.getLastD .graphTooLarge,
    "synthetic fabric record was rejected by the snapshot builder"⟩

/-- A record that was rejected ends the construction. -/
def orFail (rejected : Option DiagnosticCode) (builder : FabricSnapshotBuilder) :
    Except BuildError FabricSnapshotBuilder :=
  if rejected.isSome then .error (builderFailure builder) else .ok builder

/-- `capability_count`. -/
def SyntheticOptions.capabilityCount (options : SyntheticOptions) : ℕ :=
  max 1 options.capabilityBindings.toNat

/-- `domain_count`. -/
def SyntheticOptions.domainCount (options : SyntheticOptions) : ℕ :=
  max 1 options.failureDomains.toNat

/-- The view ceilings, which are checked before anything is published. -/
def ceilingError (options : SyntheticOptions) (topology : Topology) : Option BuildError :=
  let limits := options.limits
  let n := topology.nodeCount
  let edges := topology.edges.length
  if exceeds n limits.maxEndpoints then
    some ⟨.graphTooLarge, "synthetic fabric exceeds max_endpoints"⟩
  else if exceeds (2 * edges + n) limits.maxPortStateRecords then
    some ⟨.graphTooLarge, "synthetic fabric exceeds max_port_state_records"⟩
  else if exceeds ((n + edges) * options.capabilityCount % 2 ^ 64) limits.maxCapabilityBindings then
    some ⟨.graphTooLarge, "synthetic fabric exceeds max_capability_bindings"⟩
  else if exceeds options.domainCount limits.maxFailureDomains then
    some ⟨.graphTooLarge, "synthetic fabric exceeds max_failure_domains"⟩
  else none

/-- `SnapshotGenerations` of a synthetic fabric. -/
def syntheticGenerations : SnapshotGenerations where
  topology := .ofNat 1
  linkState := .ofNat 1
  ports := .ofNat 1
  capabilities := .ofNat 1
  failureDomains := .ofNat 1
  epoch := .ofNat 1
  policy := .ofNat 1
  constraints := .ofNat 1

/-- What the loop over the edges carries. -/
structure LinkLoop where
  random : SeededRandom
  usedPorts : List ℕ
  linkIds : List LinkId := []
  linkStates : List LinkStateRecord := []
  builder : FabricSnapshotBuilder

section Construction

variable (sha : List UInt8 → Sha256Digest) (options : SyntheticOptions)

/-- The nodes are added in their order. -/
def pushNodes (topology : Topology) (builder : FabricSnapshotBuilder) :
    Except BuildError FabricSnapshotBuilder :=
  ((List.range topology.nodeCount).map (nodeRecord sha options topology)).foldlM
    (fun builder node => orFail (builder.nodeError node) (builder.addNode node)) builder

/-- The body of the loop over the edges. -/
def pushLink (topology : Topology) (relationship : RelationshipType) (loop : LinkLoop)
    (draft : EdgeDraft) : Except BuildError LinkLoop :=
  let drawn := drawLink loop.random options topology.uniformCost
  let fromUsed := loop.usedPorts.getD draft.1 0
  let usedPorts := loop.usedPorts.modify draft.1 (· + 1)
  let toUsed := usedPorts.getD draft.2 0
  let usedPorts := usedPorts.modify draft.2 (· + 1)
  let edge := edgeRecord sha options topology relationship loop.linkIds.length draft fromUsed toUsed
    drawn.1.1
  match orFail (loop.builder.edgeError edge) (loop.builder.addEdge edge) with
  | .error error => .error error
  | .ok builder => .ok {
      random := drawn.2
      usedPorts := usedPorts
      linkIds := loop.linkIds ++ [edge.id]
      linkStates := loop.linkStates ++ (drawn.1.2.map fun state => ⟨edge.id, state⟩).toList
      builder := builder }

/-- The endpoints are added in the order of their nodes. -/
def pushEndpoints (topology : Topology) (builder : FabricSnapshotBuilder) :
    Except BuildError FabricSnapshotBuilder :=
  ((List.range topology.nodeCount).map (endpointRecord sha options topology)).foldlM
    (fun builder endpoint =>
      orFail (builder.endpointError endpoint) (builder.addEndpoint endpoint)) builder

/-- The records of the views, after the links. -/
def setViews (topology : Topology) (loop : LinkLoop) : FabricSnapshotBuilder :=
  let n := topology.nodeCount
  let ports := (List.range n).flatMap (nodePorts sha options topology)
  let subjects := (List.range n).map (fun i => .forNode (syntheticNodeId sha options i)) ++
    loop.linkIds.map .forLink
  let domains := (List.range options.domainCount).map
    (failureDomainRecord sha options topology loop.linkIds options.domainCount)
  (((loop.builder.setLinkStates loop.linkStates).setPortStates
    (drawPortStates options loop.random ports)).setCapabilities
      (bindingRecords sha options options.capabilityCount subjects)).setFailureDomains domains
        options.membershipComplete

/-- `BuildSyntheticFabric`, from the topology to the snapshot. -/
def publishTopology (relationship : RelationshipType) (topology : Topology) :
    Except BuildError FabricSnapshot := do
  let limits := options.limits
  let builder ← pushNodes sha options topology
    (((FabricSnapshotBuilder.new limits).setGenerations syntheticGenerations).setSource .synthetic)
  let loop ← topology.edges.foldlM (pushLink sha options topology relationship) {
    random := ⟨options.seed⟩
    usedPorts := List.replicate topology.nodeCount 0
    builder := builder }
  if exceeds loop.linkStates.length limits.maxLinkStateRecords then
    .error ⟨.graphTooLarge, "synthetic fabric exceeds max_link_state_records"⟩
  else if (List.range options.domainCount).any fun domain =>
      exceeds (domainMembers topology options.domainCount domain)
        limits.maxMembersPerFailureDomain then
    .error ⟨.graphTooLarge, "synthetic fabric exceeds max_members_per_failure_domain"⟩
  else do
    let builder ← pushEndpoints sha options topology (setViews sha options topology loop)
    builder.build sha

/-- `BuildSyntheticFabric`, with the topology that it drafted. -/
def buildSyntheticSnapshot : Except BuildError (Topology × FabricSnapshot) :=
  match validateLimits options.limits with
  | some error => .error ⟨error, "resource limits are incoherent"⟩
  | none =>
    match relationshipForLayer options.layer with
    | none =>
      .error ⟨.unsupportedLayer, "unsupported path layer " ++ toString options.layer.value⟩
    | some relationship => do
      let topology ← buildTopology options
      match ceilingError options topology with
      | some error => .error error
      | none =>
        let snapshot ← publishTopology sha options relationship topology
        .ok (topology, snapshot)

/-- `GenerateSyntheticFabric`. -/
def generateSyntheticFabric : Except BuildError FabricSnapshot :=
  (buildSyntheticSnapshot sha options).map Prod.snd

/-- `SyntheticFabric`. -/
structure SyntheticFabric where
  snapshot : FabricSnapshot
  source : EndpointId
  destination : EndpointId
  sourceNode : NodeId
  destinationNode : NodeId
  sourceGeneration : EntityGeneration
  destinationGeneration : EntityGeneration
  endpointClass : EndpointClass := .endpoint

/-- `BuildSyntheticFabric`, with the endpoints that it reports. -/
def buildSyntheticFabric : Except BuildError SyntheticFabric := do
  let (topology, snapshot) ← buildSyntheticSnapshot sha options
  match snapshot.findEndpoint (fabricId sha options "e" topology.source 0),
      snapshot.findEndpoint (fabricId sha options "e" topology.destination 0) with
  | some source, some destination => .ok {
      snapshot := snapshot
      source := source.id
      destination := destination.id
      sourceNode := source.node
      destinationNode := destination.node
      sourceGeneration := source.entityGeneration
      destinationGeneration := destination.entityGeneration
      endpointClass := source.endpointClass }
  | _, _ =>
    .error ⟨.unknownEndpoint, "generated snapshot is missing its reported endpoints"⟩

end Construction

/-! ## Loops over the builder -/

namespace FabricSnapshotBuilder

variable {b : FabricSnapshotBuilder}

/-- An accepted node is the last one, with its ports sorted, and none of these is listed twice. -/
theorem addNode_of_nodeError {node : NodeRecord} (h : b.nodeError node = none) :
    (b.addNode node).nodes = b.nodes ++ [{ node with ports := sortBy id node.ports }] ∧
      (b.addNode node).edges = b.edges ∧ (b.addNode node).endpoints = b.endpoints ∧
      node.ports.Nodup := by
  have hports : node.ports.Nodup := by
    have hchecks := h
    unfold nodeError at hchecks
    split_ifs at hchecks with _ _ _ _ hduplicate
    exact hasDuplicate_eq_false_iff.mp (Bool.not_eq_true _ ▸ hduplicate)
  unfold addNode
  split
  · next hsome => cases h.symm.trans hsome
  · exact ⟨rfl, rfl, rfl, hports⟩

/-- An accepted edge is the last one. -/
theorem addEdge_of_edgeError {edge : EdgeRecord} (h : b.edgeError edge = none) :
    (b.addEdge edge).edges = b.edges ++ [edge] ∧ (b.addEdge edge).nodes = b.nodes ∧
      (b.addEdge edge).endpoints = b.endpoints := by
  unfold addEdge
  split
  · next hsome => cases h.symm.trans hsome
  · exact ⟨rfl, rfl, rfl⟩

/-- An accepted endpoint is the last one. -/
theorem addEndpoint_of_endpointError {endpoint : EndpointRecord}
    (h : b.endpointError endpoint = none) :
    (b.addEndpoint endpoint).endpoints = b.endpoints ++ [endpoint] ∧
      (b.addEndpoint endpoint).nodes = b.nodes ∧ (b.addEndpoint endpoint).edges = b.edges := by
  unfold addEndpoint
  split
  · next hsome => cases h.symm.trans hsome
  · exact ⟨rfl, rfl, rfl⟩

end FabricSnapshotBuilder

theorem orFail_eq_ok_iff {rejected : Option DiagnosticCode} {b b' : FabricSnapshotBuilder} :
    orFail rejected b = .ok b' ↔ rejected = none ∧ b = b' := by
  unfold orFail
  cases rejected with
  | some code => exact ⟨nofun, fun h => nomatch h.1⟩
  | none => exact ⟨fun h => ⟨rfl, Except.ok.inj h⟩, fun h => congrArg Except.ok h.2⟩

section Loops

variable {sha : List UInt8 → Sha256Digest} {options : SyntheticOptions} {topology : Topology}
  {relationship : RelationshipType} {b b' : FabricSnapshotBuilder} {loop loop' : LinkLoop}

/-- **The nodes** are all added, each without a repeated port. -/
theorem foldlM_addNode {nodes : List NodeRecord}
    (h : nodes.foldlM (fun builder node => orFail (builder.nodeError node) (builder.addNode node)) b =
      .ok b') :
    b'.nodes = b.nodes ++ nodes.map (fun node => { node with ports := sortBy id node.ports }) ∧
      b'.edges = b.edges ∧ b'.endpoints = b.endpoints ∧ ∀ node ∈ nodes, node.ports.Nodup := by
  induction nodes generalizing b with
  | nil =>
    obtain rfl := Except.ok.inj h
    exact ⟨(List.append_nil _).symm, rfl, rfl, fun node hnode => absurd hnode List.not_mem_nil⟩
  | cons node nodes ih =>
    rw [List.foldlM_cons] at h
    obtain ⟨next, hnext, hrest⟩ := bind_eq_ok_iff.mp h
    obtain ⟨hnone, rfl⟩ := orFail_eq_ok_iff.mp hnext
    obtain ⟨hnodes, hedges, hendpoints, hports⟩ := ih hrest
    obtain ⟨hadded, hedges', hendpoints', hfirst⟩ :=
      FabricSnapshotBuilder.addNode_of_nodeError hnone
    refine ⟨?_, hedges.trans hedges', hendpoints.trans hendpoints',
      List.forall_mem_cons.mpr ⟨hfirst, hports⟩⟩
    rw [hnodes, hadded, List.append_assoc]
    rfl

/-- **The endpoints** are all added. -/
theorem foldlM_addEndpoint {endpoints : List EndpointRecord}
    (h : endpoints.foldlM (fun builder endpoint =>
      orFail (builder.endpointError endpoint) (builder.addEndpoint endpoint)) b = .ok b') :
    b'.endpoints = b.endpoints ++ endpoints ∧ b'.nodes = b.nodes ∧ b'.edges = b.edges := by
  induction endpoints generalizing b with
  | nil =>
    obtain rfl := Except.ok.inj h
    exact ⟨(List.append_nil _).symm, rfl, rfl⟩
  | cons endpoint endpoints ih =>
    rw [List.foldlM_cons] at h
    obtain ⟨next, hnext, hrest⟩ := bind_eq_ok_iff.mp h
    obtain ⟨hnone, rfl⟩ := orFail_eq_ok_iff.mp hnext
    obtain ⟨hendpoints, hnodes, hedges⟩ := ih hrest
    obtain ⟨hadded, hnodes', hedges'⟩ :=
      FabricSnapshotBuilder.addEndpoint_of_endpointError hnone
    refine ⟨?_, hnodes.trans hnodes', hedges.trans hedges'⟩
    rw [hendpoints, hadded, List.append_assoc]
    rfl

/-! ## Ports -/

/-- The ports that a link uses at a node. -/
def EdgeRecord.portsAt (edge : EdgeRecord) (node : NodeId) : List PortId :=
  (if edge.source = node then [edge.fromPort] else []) ++
    if edge.target = node then [edge.toPort] else []

/-- The ports that links and endpoints use at a node. -/
def FabricSnapshot.portsInUse (s : FabricSnapshot) (node : NodeId) : List PortId :=
  s.edges.flatMap (·.portsAt node) ++ (s.endpoints.filter (·.node = node)).map (·.port)

/-- The body of the loop adds the link of the edge at the next ports of its nodes. -/
theorem pushLink_eq_ok {draft : EdgeDraft}
    (h : pushLink sha options topology relationship loop draft = .ok loop') :
    ∃ staticCost, (loop'.builder.edges = loop.builder.edges ++ [edgeRecord sha options topology
        relationship loop.linkIds.length draft (loop.usedPorts.getD draft.1 0)
        ((loop.usedPorts.modify draft.1 (· + 1)).getD draft.2 0) staticCost] ∧
      loop'.builder.nodes = loop.builder.nodes ∧
      loop'.builder.endpoints = loop.builder.endpoints) ∧
      loop'.usedPorts = (loop.usedPorts.modify draft.1 (· + 1)).modify draft.2 (· + 1) := by
  unfold pushLink at h
  dsimp only at h
  split at h
  · cases h
  · next builder hbuilder =>
    obtain rfl := Except.ok.inj h
    obtain ⟨hnone, rfl⟩ := orFail_eq_ok_iff.mp hbuilder
    exact ⟨_, FabricSnapshotBuilder.addEdge_of_edgeError hnone, rfl⟩

/-- The names of the nodes are different. -/
def HasNames (sha : List UInt8 → Sha256Digest) (options : SyntheticOptions) (n : ℕ) : Prop :=
  ∀ u < n, ∀ v < n, syntheticNodeId sha options u = syntheticNodeId sha options v → u = v

/-- The loop has taken the ports of the edges that it passed, in their order. -/
structure LinkLoop.HasTaken (sha : List UInt8 → Sha256Digest) (options : SyntheticOptions)
    (topology : Topology) (loop : LinkLoop) (passed : List EdgeDraft) : Prop where
  usedPorts_length : loop.usedPorts.length = topology.nodeCount
  usedPorts_eq : ∀ v < topology.nodeCount, loop.usedPorts.getD v 0 = EdgeList.degree passed v
  ends : loop.builder.edges.map (fun edge => (edge.source, edge.target)) =
    passed.map (Prod.map (syntheticNodeId sha options) (syntheticNodeId sha options))
  ports : ∀ v < topology.nodeCount,
    loop.builder.edges.flatMap (·.portsAt (syntheticNodeId sha options v)) =
      (nodePorts sha options topology v).take (EdgeList.degree passed v)

/-- A list is taken one entry further. -/
theorem take_succ_eq_append_getD {α : Type} {l : List α} {k : ℕ} (d : α) (h : k < l.length) :
    l.take (k + 1) = l.take k ++ [l.getD k d] := by
  rw [List.take_add_one, List.getD_eq_getElem?_getD, List.getElem?_eq_getElem h]
  rfl

/-- **The step lemma**: an edge that is not a loop takes the next ports of its nodes. -/
theorem LinkLoop.HasTaken.pushLink {passed : List EdgeDraft} {draft : EdgeDraft}
    (hnames : HasNames sha options topology.nodeCount)
    (hlt : draft.1 < topology.nodeCount ∧ draft.2 < topology.nodeCount) (hne : draft.1 ≠ draft.2)
    (hroom : ∀ v < topology.nodeCount, EdgeList.degree (passed ++ [draft]) v ≤
      (nodePorts sha options topology v).length)
    (h : loop.HasTaken sha options topology passed)
    (hpush : PathPlanner.pushLink sha options topology relationship loop draft = .ok loop') :
    loop'.HasTaken sha options topology (passed ++ [draft]) := by
  obtain ⟨staticCost, ⟨hedges, -, -⟩, hused⟩ := pushLink_eq_ok hpush
  have hfirst : draft.1 < loop.usedPorts.length := by
    rw [h.usedPorts_length]
    exact hlt.1
  have hsecond : draft.2 < loop.usedPorts.length := by
    rw [h.usedPorts_length]
    exact hlt.2
  rw [getD_modify_succ hsecond, if_neg hne, Nat.add_zero, h.usedPorts_eq _ hlt.1,
    h.usedPorts_eq _ hlt.2] at hedges
  refine ⟨?_, fun v hv => ?_, ?_, fun v hv => ?_⟩
  · rw [hused, List.length_modify, List.length_modify]
    exact h.usedPorts_length
  · have hlength : v < loop.usedPorts.length := by
      rw [h.usedPorts_length]
      exact hv
    rw [hused, getD_modify_succ (by rwa [List.length_modify]), getD_modify_succ hlength,
      h.usedPorts_eq v hv, EdgeList.degree_concat]
  · rw [hedges, List.map_append, List.map_append, h.ends]
    rfl
  · have hdegree := EdgeList.degree_concat passed draft v
    have hlength := hroom v hv
    have hname {u : ℕ} (hu : u < topology.nodeCount) :
        syntheticNodeId sha options u = syntheticNodeId sha options v ↔ u = v :=
      ⟨hnames u hu v hv, congrArg _⟩
    rw [hedges, List.flatMap_append, h.ports v hv, List.flatMap_singleton]
    unfold EdgeRecord.portsAt edgeRecord
    simp only [hname hlt.1, hname hlt.2]
    rw [hdegree] at hlength ⊢
    -- the node is the source of the edge, or its target, or none of them
    by_cases hsource : draft.1 = v
    · rw [if_pos hsource, if_neg (hsource ▸ hne.symm)] at hlength ⊢
      rw [if_pos hsource, if_neg (hsource ▸ hne.symm), List.append_nil, hsource]
      exact (take_succ_eq_append_getD _ hlength).symm
    · simp only [if_neg hsource, List.nil_append, Nat.add_zero] at hlength ⊢
      by_cases htarget : draft.2 = v
      · rw [if_pos htarget] at hlength ⊢
        rw [if_pos htarget, htarget]
        exact (take_succ_eq_append_getD _ hlength).symm
      · rw [if_neg htarget, if_neg htarget, List.append_nil, Nat.add_zero]

/-- **The run lemma**: the loop over the edges takes the ports of all of them. -/
theorem LinkLoop.HasTaken.foldlM {passed drafts : List EdgeDraft}
    (hnames : HasNames sha options topology.nodeCount)
    (hlt : ∀ draft ∈ drafts, draft.1 < topology.nodeCount ∧ draft.2 < topology.nodeCount)
    (hne : ∀ draft ∈ drafts, draft.1 ≠ draft.2)
    (hroom : ∀ v < topology.nodeCount, EdgeList.degree (passed ++ drafts) v ≤
      (nodePorts sha options topology v).length)
    (h : loop.HasTaken sha options topology passed)
    (hpush : drafts.foldlM (PathPlanner.pushLink sha options topology relationship) loop = .ok loop') :
    loop'.HasTaken sha options topology (passed ++ drafts) := by
  induction drafts generalizing loop passed with
  | nil =>
    obtain rfl := Except.ok.inj hpush
    rw [List.append_nil]
    exact h
  | cons draft drafts ih =>
    rw [List.foldlM_cons] at hpush
    obtain ⟨next, hnext, hrest⟩ := bind_eq_ok_iff.mp hpush
    rw [List.append_cons] at hroom ⊢
    obtain ⟨hdraft, hdrafts⟩ := List.forall_mem_cons.mp hlt
    obtain ⟨hdraft', hdrafts'⟩ := List.forall_mem_cons.mp hne
    -- what is passed so far needs no more ports than all the edges
    have hnow (v : ℕ) (hv : v < topology.nodeCount) : EdgeList.degree (passed ++ [draft]) v ≤
        (nodePorts sha options topology v).length :=
      (EdgeList.degree_le_append _ drafts v).trans (hroom v hv)
    exact ih hdrafts hdrafts' hroom (h.pushLink hnames hdraft hdraft' hnow hnext) hrest

/-- The loop over the edges adds no node and no endpoint. -/
theorem foldlM_pushLink_frame {drafts : List EdgeDraft}
    (hpush : drafts.foldlM (pushLink sha options topology relationship) loop = .ok loop') :
    loop'.builder.nodes = loop.builder.nodes ∧ loop'.builder.endpoints = loop.builder.endpoints := by
  induction drafts generalizing loop with
  | nil =>
    obtain rfl := Except.ok.inj hpush
    exact ⟨rfl, rfl⟩
  | cons draft drafts ih =>
    rw [List.foldlM_cons] at hpush
    obtain ⟨next, hnext, hrest⟩ := bind_eq_ok_iff.mp hpush
    obtain ⟨_, ⟨-, hnodes, hendpoints⟩, -⟩ := pushLink_eq_ok hnext
    exact ⟨(ih hrest).1.trans hnodes, (ih hrest).2.trans hendpoints⟩

/-! ## The published snapshot -/

/-- What `BuildSyntheticFabric` passes on the way to a snapshot. -/
theorem publishTopology_eq_ok {snapshot : FabricSnapshot}
    (h : publishTopology sha options relationship topology = .ok snapshot) :
    ∃ builder loop builder', pushNodes sha options topology
        (((FabricSnapshotBuilder.new options.limits).setGenerations syntheticGenerations).setSource
          .synthetic) = .ok builder ∧
      topology.edges.foldlM (PathPlanner.pushLink sha options topology relationship) {
        random := ⟨options.seed⟩
        usedPorts := List.replicate topology.nodeCount 0
        builder := builder } = .ok loop ∧
      pushEndpoints sha options topology (setViews sha options topology loop) = .ok builder' ∧
      builder'.build sha = .ok snapshot := by
  unfold publishTopology at h
  obtain ⟨builder, hnodes, h⟩ := bind_eq_ok_iff.mp h
  obtain ⟨loop, hlinks, h⟩ := bind_eq_ok_iff.mp h
  split_ifs at h
  obtain ⟨builder', hendpoints, hbuild⟩ := bind_eq_ok_iff.mp h
  exact ⟨builder, loop, builder', hnodes, hlinks, hendpoints, hbuild⟩

/-- The snapshot is the topology under the names of its nodes, with a port of its own for each edge
end and each endpoint. -/
structure FabricSnapshot.Publishes (s : FabricSnapshot) (sha : List UInt8 → Sha256Digest)
    (options : SyntheticOptions) (topology : Topology) : Prop where
  hasNames : HasNames sha options topology.nodeCount
  nodes : (s.nodes.map (·.id)).Perm
    ((List.range topology.nodeCount).map (syntheticNodeId sha options))
  edges : (s.edges.map fun edge => (edge.source, edge.target)).Perm
    (topology.edges.map (Prod.map (syntheticNodeId sha options) (syntheticNodeId sha options)))
  endpoints : s.endpoints.Perm
    ((List.range topology.nodeCount).map (endpointRecord sha options topology))
  ports : ∀ node ∈ s.nodes, (s.portsInUse node.id).Perm node.ports ∧ node.ports.Nodup

/-- The ports of a node: one for each edge end, and one more. -/
theorem nodePorts_eq (sha : List UInt8 → Sha256Digest) (options : SyntheticOptions) {v : ℕ}
    (hdegree : topology.degree.getD v 0 = EdgeList.degree topology.edges v)
    (hlt : 2 * topology.edges.length + 1 < 2 ^ 32) :
    nodePorts sha options topology v =
      (List.range (EdgeList.degree topology.edges v)).map
          (fun port => fabricId sha options "p" v port) ++
        [fabricId sha options "p" v (EdgeList.degree topology.edges v)] := by
  have hends := EdgeList.degree_le topology.edges v
  unfold nodePorts
  rw [hdegree, Nat.mod_eq_of_lt (by omega), List.range_succ, List.map_append]
  rfl

/-- A number is found under its name. -/
theorem filter_range_name {β : Type} [DecidableEq β] {name : ℕ → β} {n v : ℕ}
    (hnames : ∀ u < n, ∀ v < n, name u = name v → u = v) (hv : v < n) :
    (List.range n).filter (fun u => name u = name v) = [v] := by
  have hfilter : (List.range n).filter (fun u => name u = name v) =
      (List.range n).filter (fun u => u = v) := by
    refine List.filter_congr fun u hu => decide_eq_decide.mpr ?_
    exact ⟨fun h => hnames u (List.mem_range.mp hu) v hv h, fun h => congrArg _ h⟩
  rw [hfilter, List.filter_eq, List.nodup_range.count, if_pos (List.mem_range.mpr hv)]
  rfl

/-- A node has one endpoint. -/
theorem filter_endpointRecord {n v : ℕ} (hnames : HasNames sha options n) (hv : v < n) :
    ((List.range n).map (endpointRecord sha options topology)).filter
        (·.node = syntheticNodeId sha options v) = [endpointRecord sha options topology v] := by
  rw [List.filter_map]
  exact congrArg (List.map (endpointRecord sha options topology)) (filter_range_name hnames hv)

/-- **A published topology.** -/
theorem publishes_of_publishTopology {snapshot : FabricSnapshot}
    (hlt : ∀ e ∈ topology.edges, e.1 < topology.nodeCount ∧ e.2 < topology.nodeCount)
    (hne : ∀ e ∈ topology.edges, e.1 ≠ e.2)
    (hdegree : ∀ v < topology.nodeCount,
      topology.degree.getD v 0 = EdgeList.degree topology.edges v)
    (hlength : 2 * topology.edges.length + 1 < 2 ^ 32)
    (h : publishTopology sha options relationship topology = .ok snapshot) :
    snapshot.Publishes sha options topology := by
  obtain ⟨builder, loop, builder', hadded, hlinks, hlast, hbuild⟩ := publishTopology_eq_ok h
  obtain ⟨hnodes, hedges, hendpoints, hnodup⟩ := foldlM_addNode hadded
  obtain ⟨hnodes', hendpoints'⟩ := foldlM_pushLink_frame hlinks
  obtain ⟨hendpoints'', hnodes'', hedges''⟩ := foldlM_addEndpoint hlast
  have hpublishes := (FabricSnapshotBuilder.records_eq_ok
    (FabricSnapshotBuilder.records_of_build hbuild)).1
  -- the records that the builder holds in the end
  have hallNodes : builder'.nodes = (List.range topology.nodeCount).map fun v =>
      { nodeRecord sha options topology v with
        ports := sortBy id (nodePorts sha options topology v) } := by
    rw [hnodes'', show (setViews sha options topology loop).nodes = loop.builder.nodes from rfl,
      hnodes', hnodes, List.map_map]
    rfl
  have hallEndpoints : builder'.endpoints =
      (List.range topology.nodeCount).map (endpointRecord sha options topology) := by
    rw [hendpoints'',
      show (setViews sha options topology loop).endpoints = loop.builder.endpoints from rfl,
      hendpoints', hendpoints]
    rfl
  have hpermNodes := hpublishes.nodes ▸ perm_sortBy NodeRecord.id builder'.nodes
  have hpermEdges := hpublishes.edges ▸ perm_sortBy EdgeRecord.id builder'.edges
  have hpermEndpoints := hpublishes.endpoints ▸ perm_sortBy EndpointRecord.id builder'.endpoints
  rw [hallNodes] at hpermNodes
  rw [hedges''] at hpermEdges
  rw [hallEndpoints] at hpermEndpoints
  have hids : (snapshot.nodes.map (·.id)).Perm
      ((List.range topology.nodeCount).map (syntheticNodeId sha options)) := by
    have hmapped := hpermNodes.map NodeRecord.id
    rw [List.map_map] at hmapped
    exact hmapped
  have hnames : HasNames sha options topology.nodeCount := by
    have hdistinct : (snapshot.nodes.map (·.id)).Nodup :=
      List.pairwise_map.mpr (snapshot.nodes_sorted.imp ne_of_lt)
    intro u hu v hv heq
    exact List.inj_on_of_nodup_map (hids.nodup_iff.mp hdistinct) (List.mem_range.mpr hu)
      (List.mem_range.mpr hv) heq
  have hports {v : ℕ} (hv : v < topology.nodeCount) :=
    nodePorts_eq sha options (hdegree v hv) hlength
  have hstart : LinkLoop.HasTaken sha options topology {
      random := ⟨options.seed⟩
      usedPorts := List.replicate topology.nodeCount 0
      builder := builder } [] := by
    refine ⟨List.length_replicate, fun v hv => ?_, congrArg _ hedges, fun v _ => ?_⟩
    · dsimp only
      rw [List.getD_eq_getElem?_getD, List.getElem?_replicate_of_lt hv]
      rfl
    · dsimp only
      rw [hedges]
      rfl
  have htaken := hstart.foldlM hnames hlt hne (fun v hv => by
    rw [hports hv, List.length_append, List.length_map, List.length_range, List.nil_append]
    exact Nat.le_succ _) hlinks
  rw [List.nil_append] at htaken
  refine ⟨hnames, hids, (hpermEdges.map _).trans (List.Perm.of_eq htaken.ends), hpermEndpoints,
    fun node hnode => ?_⟩
  obtain ⟨v, hv, rfl⟩ := List.mem_map.mp (hpermNodes.mem_iff.mp hnode)
  have hv := List.mem_range.mp hv
  have hsorted : (sortBy id (nodePorts sha options topology v)).Perm
      (nodePorts sha options topology v) := perm_sortBy id _
  refine ⟨?_, hsorted.nodup_iff.mpr (hnodup _ (List.mem_map_of_mem (List.mem_range.mpr hv)))⟩
  refine List.Perm.trans ?_ hsorted.symm
  -- the edge ends have all the ports up to the last one, and the endpoint has the last one
  have hends := (hpermEdges.flatMap_right (·.portsAt (syntheticNodeId sha options v))).trans
    (List.Perm.of_eq (htaken.ports v hv))
  have haccess := ((hpermEndpoints.filter (·.node = syntheticNodeId sha options v)).trans
    (List.Perm.of_eq (filter_endpointRecord hnames hv))).map EndpointRecord.port
  refine (hends.append haccess).trans (List.Perm.of_eq ?_)
  have hlast : (endpointRecord sha options topology v).port =
      (nodePorts sha options topology v).getLastD .nil := rfl
  rw [List.map_singleton, hlast, hports hv, List.getLastD_concat, List.take_left' (by simp)]

/-! ## Accepted options -/

/-- What `BuildSyntheticFabric` passes on the way to its topology and its snapshot. -/
theorem buildSyntheticSnapshot_eq_ok {snapshot : FabricSnapshot}
    (h : buildSyntheticSnapshot sha options = .ok (topology, snapshot)) :
    buildTopology options = .ok topology ∧ ceilingError options topology = none ∧
      ∃ relationship, publishTopology sha options relationship topology = .ok snapshot := by
  unfold buildSyntheticSnapshot at h
  split at h
  · cases h
  · split at h
    · cases h
    · next relationship _ =>
      obtain ⟨drafted, htopology, h⟩ := bind_eq_ok_iff.mp h
      split at h
      · cases h
      · next hceiling =>
        obtain ⟨published, hpublish, h⟩ := bind_eq_ok_iff.mp h
        obtain ⟨rfl, rfl⟩ := Prod.mk.inj (Except.ok.inj h)
        exact ⟨htopology, hceiling, relationship, hpublish⟩

/-- The ports are numbered by 32 bits. -/
theorem ports_lt_of_ceilingError (h : ceilingError options topology = none) :
    2 * topology.edges.length + topology.nodeCount < 2 ^ 32 := by
  unfold ceilingError at h
  dsimp only at h
  split_ifs at h with _ hports
  unfold exceeds at hports
  rw [decide_eq_true_eq, not_lt] at hports
  exact hports.trans_lt options.limits.maxPortStateRecords.toNat_lt

/-- The endpoint of a node is found. -/
theorem FabricSnapshot.Publishes.findEndpoint {snapshot : FabricSnapshot} {v : ℕ}
    (h : snapshot.Publishes sha options topology) (hv : v < topology.nodeCount) :
    snapshot.findEndpoint (fabricId sha options "e" v 0) =
      some (endpointRecord sha options topology v) :=
  FabricSnapshot.findEndpoint_eq_some_iff.mpr
    ⟨h.endpoints.mem_iff.mpr (List.mem_map_of_mem (List.mem_range.mpr hv)), rfl⟩

/-- **Accepted options keep the promise of their family**: the topology that they draft is the one that
is published, each edge end and each endpoint has a port of its own, and the reported nodes are the
source and the destination. -/
theorem generateSyntheticFabric_keepsPromise {snapshot : FabricSnapshot}
    (h : generateSyntheticFabric sha options = .ok snapshot) :
    ∃ topology fabric, buildTopology options = .ok topology ∧ topology.KeepsPromise options ∧
      snapshot.Publishes sha options topology ∧
      buildSyntheticFabric sha options = .ok fabric ∧ fabric.snapshot = snapshot ∧
      fabric.sourceNode = syntheticNodeId sha options topology.source ∧
      fabric.destinationNode = syntheticNodeId sha options topology.destination := by
  obtain ⟨⟨topology, published⟩, hbuild, rfl⟩ : ∃ x, buildSyntheticSnapshot sha options = .ok x ∧
      x.2 = snapshot := by
    unfold generateSyntheticFabric at h
    cases hbuild : buildSyntheticSnapshot sha options with
    | error error =>
      rw [hbuild] at h
      cases h
    | ok x =>
      rw [hbuild] at h
      exact ⟨x, rfl, Except.ok.inj h⟩
  obtain ⟨htopology, hceiling, relationship, hpublish⟩ := buildSyntheticSnapshot_eq_ok hbuild
  have hpromise := keepsPromise_buildTopology htopology
  have hports := ports_lt_of_ceilingError hceiling
  have htwo : 2 ≤ topology.nodeCount := hpromise.nodeCount_eq ▸ le_max_left _ _
  have hdegree (v : ℕ) (hv : v < topology.nodeCount) :
      topology.degree.getD v 0 = EdgeList.degree topology.edges v := by
    rw [hpromise.degree_eq, List.getD_eq_getElem?_getD, List.getElem?_map,
      List.getElem?_range hv]
    rfl
  have hpublishes := publishes_of_publishTopology hpromise.isPromised.lt hpromise.isPromised.ne
    hdegree (by omega) hpublish
  have hsource := hpublishes.findEndpoint hpromise.isPromised.source_lt
  have hdestination := hpublishes.findEndpoint hpromise.isPromised.destination_lt
  refine ⟨topology, ?_, htopology, hpromise, hpublishes, ?_, ?_, ?_, ?_⟩
  rotate_left
  · unfold buildSyntheticFabric
    rw [hbuild]
    dsimp only [bind, Except.bind]
    rw [hsource, hdestination]
  · rfl
  · rfl
  · rfl

/-- A digest that shows the label it is taken of. -/
def labelDigest (bytes : List UInt8) : Sha256Digest := ⟨Vector.ofFn fun i => bytes.getD i 0⟩

/-- The chain of two nodes is accepted. -/
theorem generateSyntheticFabric_keepsPromise_chain :
    ∃ snapshot topology, generateSyntheticFabric labelDigest { family := .chain, nodes := 2 } =
        .ok snapshot ∧
      topology.KeepsPromise { family := .chain, nodes := 2 } ∧
      snapshot.Publishes labelDigest { family := .chain, nodes := 2 } topology := by
  have haccepted : (generateSyntheticFabric labelDigest
      { family := .chain, nodes := 2 }).toOption.isSome = true := by decide +kernel
  obtain ⟨topology, -, -, hpromise, hpublishes, -⟩ :=
    generateSyntheticFabric_keepsPromise (FabricSnapshotBuilder.eq_ok_get haccepted)
  exact ⟨_, topology, FabricSnapshotBuilder.eq_ok_get haccepted, hpromise, hpublishes⟩

end Loops

end PathPlanner
