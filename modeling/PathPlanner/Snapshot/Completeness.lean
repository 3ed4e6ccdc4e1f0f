import PathPlanner.Snapshot.Buildable

/-!
# Completeness of the builder

Records that keep to the documented rules pass every check of the builder, whatever the order of the
calls that supply them, once the generations are set. What is left is the ceiling of the encoding,
which counts nodes and failure domains but not their ports and members: `Build` succeeds exactly when
the encoding fits it.

## Main definitions

* `FabricContent.supply`, `FabricContent.ofCalls`: the records that calls supply
* `FabricContent.IsAcceptable`, `FabricContent.IsAdmissible`: the documented rules
* `FabricContent.stored`: the records as a builder stores them

## Main results

* `FabricSnapshotBuilder.Stores.perform`: the step lemma
* `FabricSnapshotBuilder.build_complete_iff`: **when admissible records can be built**
* `not_build_complete_manyPorts`: a node with eighty ports cannot
-/

namespace PathPlanner

open SortedList Spread

/-! ## What is supplied -/

namespace FabricContent

/-- The records with those of one more call. -/
def supply (c : FabricContent) : BuilderCall → FabricContent
  | .setGenerations generations => { c with generations }
  | .setSource evidenceSource => { c with evidenceSource }
  | .addNode node => { c with nodes := c.nodes ++ [node] }
  | .addEdge edge => { c with edges := c.edges ++ [edge] }
  | .addEndpoint endpoint => { c with endpoints := c.endpoints ++ [endpoint] }
  | .setLinkStates records => { c with linkStates := records }
  | .setPortStates records => { c with portStates := records }
  | .setCapabilities bindings => { c with capabilities := bindings }
  | .setFailureDomains domains complete =>
    { c with failureDomains := domains, membershipComplete := complete }

/-- The records that calls supply. -/
def ofCalls (calls : List BuilderCall) : FabricContent := calls.foldl supply {}

/-- The rules for each record that is added. -/
structure IsAcceptable (c : FabricContent) (limits : ResourceLimits) : Prop where
  nodes_length : c.nodes.length ≤ limits.maxNodes.toNat
  edges_length : c.edges.length ≤ limits.maxEdges.toNat
  endpoints_length : c.endpoints.length ≤ limits.maxEndpoints.toNat
  node_valid : ∀ n ∈ c.nodes, n.id.isValid = true ∧ ∀ p ∈ n.ports, p.isValid = true
  ports_length : ∀ n ∈ c.nodes, n.ports.length ≤ limits.maxPortsPerNode.toNat
  ports_nodup : ∀ n ∈ c.nodes, n.ports.Nodup
  edge_valid : ∀ e ∈ c.edges, e.id.isValid = true ∧ e.source.isValid = true ∧
    e.target.isValid = true ∧ e.fromPort.isValid = true ∧ e.toPort.isValid = true
  endpoint_valid : ∀ e ∈ c.endpoints, e.id.isValid = true ∧ e.node.isValid = true ∧
    e.port.isValid = true
  layers : ∀ e ∈ c.edges, relationshipMatchesLayer e.relationship e.layer = true

/-- The documented rules for the records: identities are not nil and unique, references resolve to
published ports, relationships match layers, and every count is within its limit. -/
structure IsAdmissible (c : FabricContent) (limits : ResourceLimits) : Prop
    extends IsAcceptable c limits where
  nodes : (c.nodes.map (·.id)).Nodup
  edges : (c.edges.map (·.id)).Nodup
  endpoints : (c.endpoints.map (·.id)).Nodup
  links : (c.linkStates.map (·.link)).Nodup
  ports : (c.portStates.map (·.port)).Nodup
  bindings : (c.capabilities.map (·.key)).Nodup
  domains : (c.failureDomains.map (·.domain)).Nodup
  edge_source : ∀ e ∈ c.edges, ∃ n ∈ c.nodes, n.id = e.source ∧ e.fromPort ∈ n.ports
  edge_target : ∀ e ∈ c.edges, ∃ n ∈ c.nodes, n.id = e.target ∧ e.toPort ∈ n.ports
  endpoint_node : ∀ e ∈ c.endpoints, ∃ n ∈ c.nodes, n.id = e.node ∧ e.port ∈ n.ports
  linkStates_length : c.linkStates.length ≤ limits.maxLinkStateRecords.toNat
  portStates_length : c.portStates.length ≤ limits.maxPortStateRecords.toNat
  bindings_length : c.capabilities.length ≤ limits.maxCapabilityBindings.toNat
  domains_length : c.failureDomains.length ≤ limits.maxFailureDomains.toNat
  domain_valid : ∀ d ∈ c.failureDomains, d.domain.isValid = true
  members_length : ∀ d ∈ c.failureDomains,
    d.members.length ≤ limits.maxMembersPerFailureDomain.toNat

/-- The records as a builder stores them: the ports of a node sorted, and no edge from a node to
itself. -/
def stored (c : FabricContent) : FabricContent :=
  { c with
    nodes := c.nodes.map fun node => { node with ports := sortBy id node.ports }
    edges := c.edges.filter fun edge => edge.source ≠ edge.target }

/-- A record that is added is not newer than the topology of the moment. -/
def IsTimely (c : FabricContent) : BuilderCall → Prop
  | .addNode node => node.structuralGeneration ≤ c.generations.topology
  | .addEdge edge => edge.structuralGeneration ≤ c.generations.topology
  | _ => True

instance (c : FabricContent) (call : BuilderCall) : Decidable (c.IsTimely call) := by
  unfold IsTimely
  split <;> infer_instance

/-- A call as a step of a run: none of them is refused. -/
def step (c : FabricContent) (call : BuilderCall) : Option FabricContent := some (c.supply call)

theorem run_step (calls : List BuilderCall) : Run.run step {} calls = some (ofCalls calls) := by
  induction calls using List.reverseRecOn with
  | nil => rfl
  | append_singleton calls call ih =>
    unfold ofCalls
    rw [Run.run_append_of_eq ih, List.foldl_append]
    rfl

variable {c : FabricContent} {limits : ResourceLimits} {call : BuilderCall}

/-- What is acceptable with one more call was so before. -/
theorem IsAcceptable.of_supply (h : (c.supply call).IsAcceptable limits) :
    c.IsAcceptable limits := by
  cases call with
  | addNode node =>
    have hlength := h.nodes_length
    change (c.nodes ++ [node]).length ≤ _ at hlength
    rw [List.length_append] at hlength
    have hmem {n : NodeRecord} (hn : n ∈ c.nodes) : n ∈ (c.supply (.addNode node)).nodes :=
      List.mem_append_left _ hn
    exact { h with
      nodes_length := (Nat.le_add_right _ _).trans hlength
      node_valid := fun n hn => h.node_valid n (hmem hn)
      ports_length := fun n hn => h.ports_length n (hmem hn)
      ports_nodup := fun n hn => h.ports_nodup n (hmem hn) }
  | addEdge edge =>
    have hlength := h.edges_length
    change (c.edges ++ [edge]).length ≤ _ at hlength
    rw [List.length_append] at hlength
    have hmem {e : EdgeRecord} (he : e ∈ c.edges) : e ∈ (c.supply (.addEdge edge)).edges :=
      List.mem_append_left _ he
    exact { h with
      edges_length := (Nat.le_add_right _ _).trans hlength
      edge_valid := fun e he => h.edge_valid e (hmem he)
      layers := fun e he => h.layers e (hmem he) }
  | addEndpoint endpoint =>
    have hlength := h.endpoints_length
    change (c.endpoints ++ [endpoint]).length ≤ _ at hlength
    rw [List.length_append] at hlength
    exact { h with
      endpoints_length := (Nat.le_add_right _ _).trans hlength
      endpoint_valid := fun e he => h.endpoint_valid e (List.mem_append_left _ he) }
  | _ => exact { h with }

end FabricContent

namespace FabricSnapshotBuilder

/-! ## What is accepted -/

section Accepted

variable {b : FabricSnapshotBuilder}

theorem nodeError_eq_none {node : NodeRecord} (hlength : b.nodes.length + 1 ≤ b.limits.maxNodes.toNat)
    (hid : node.id.isValid = true) (hvalid : ∀ p ∈ node.ports, p.isValid = true)
    (hports : node.ports.length ≤ b.limits.maxPortsPerNode.toNat) (hnodup : node.ports.Nodup)
    (hgeneration : node.structuralGeneration ≤ b.generations.topology) :
    b.nodeError node = none := by
  have hany : (node.ports.any fun port => !port.isValid) = false :=
    List.any_eq_false.mpr fun p hp => by simp [hvalid p hp]
  have hgeneration' : ¬ node.structuralGeneration.value > b.generations.topology.value :=
    not_lt.mpr hgeneration
  unfold nodeError exceeds
  simp [not_lt.mpr hlength, hid, hany, not_lt.mpr hports, hasDuplicate_eq_false_iff.mpr hnodup,
    hgeneration']

theorem edgeError_eq {edge : EdgeRecord} (hlength : b.edges.length + 1 ≤ b.limits.maxEdges.toNat)
    (hvalid : edge.id.isValid = true ∧ edge.source.isValid = true ∧ edge.target.isValid = true ∧
      edge.fromPort.isValid = true ∧ edge.toPort.isValid = true)
    (hlayer : relationshipMatchesLayer edge.relationship edge.layer = true)
    (hgeneration : edge.structuralGeneration ≤ b.generations.topology) :
    b.edgeError edge = if edge.source = edge.target then some .selfLoopRejected else none := by
  obtain ⟨hid, hsource, htarget, hfrom, hto⟩ := hvalid
  have hgeneration' : ¬ edge.structuralGeneration.value > b.generations.topology.value :=
    not_lt.mpr hgeneration
  unfold edgeError exceeds
  simp [not_lt.mpr hlength, hid, hsource, htarget, hfrom, hto, hlayer, hgeneration']

theorem endpointError_eq_none {endpoint : EndpointRecord}
    (hlength : b.endpoints.length + 1 ≤ b.limits.maxEndpoints.toNat)
    (hvalid : endpoint.id.isValid = true ∧ endpoint.node.isValid = true ∧
      endpoint.port.isValid = true) : b.endpointError endpoint = none := by
  unfold endpointError exceeds
  simp [not_lt.mpr hlength, hvalid.1, hvalid.2.1, hvalid.2.2]

theorem addNode_of_none {node : NodeRecord} (h : b.nodeError node = none) :
    (b.addNode node).limits = b.limits ∧ (b.addNode node).diagnostics = b.diagnostics ∧
      (b.addNode node).content = { b.content with
        nodes := b.content.nodes ++ [{ node with ports := sortBy id node.ports }] } := by
  unfold addNode
  split
  · next hsome => exact absurd (hsome.symm.trans h) (Option.some_ne_none _)
  · exact ⟨rfl, rfl, rfl⟩

theorem addEdge_of_none {edge : EdgeRecord} (h : b.edgeError edge = none) :
    (b.addEdge edge).limits = b.limits ∧ (b.addEdge edge).diagnostics = b.diagnostics ∧
      (b.addEdge edge).content = { b.content with edges := b.content.edges ++ [edge] } := by
  unfold addEdge
  split
  · next hsome => exact absurd (hsome.symm.trans h) (Option.some_ne_none _)
  · exact ⟨rfl, rfl, rfl⟩

theorem addEdge_of_some {edge : EdgeRecord} {code : DiagnosticCode}
    (h : b.edgeError edge = some code) :
    (b.addEdge edge).limits = b.limits ∧ (b.addEdge edge).diagnostics = b.diagnostics ++ [code] ∧
      (b.addEdge edge).content = b.content := by
  unfold addEdge
  split
  · next hsome =>
    rw [Option.some.inj (hsome.symm.trans h)]
    exact ⟨rfl, rfl, rfl⟩
  · next hnone => exact absurd (h.symm.trans hnone) (Option.some_ne_none _)

theorem addEndpoint_of_none {endpoint : EndpointRecord} (h : b.endpointError endpoint = none) :
    (b.addEndpoint endpoint).limits = b.limits ∧
      (b.addEndpoint endpoint).diagnostics = b.diagnostics ∧
      (b.addEndpoint endpoint).content =
        { b.content with endpoints := b.content.endpoints ++ [endpoint] } := by
  unfold addEndpoint
  split
  · next hsome => exact absurd (hsome.symm.trans h) (Option.some_ne_none _)
  · exact ⟨rfl, rfl, rfl⟩

end Accepted

/-- The builder stores the records, and has rejected nothing but edges from a node to itself. -/
structure Stores (b : FabricSnapshotBuilder) (limits : ResourceLimits) (c : FabricContent) :
    Prop where
  limits_eq : b.limits = limits
  content : b.content = c.stored
  diagnostics : ∀ code ∈ b.diagnostics, code = .selfLoopRejected

section Steps

variable {b : FabricSnapshotBuilder} {limits : ResourceLimits} {c : FabricContent}
  {call : BuilderCall} {calls : List BuilderCall}

/-- **The step lemma**: an acceptable record is stored when it is not newer than the topology. -/
theorem Stores.perform (h : b.Stores limits c) (htimely : c.IsTimely call)
    (hc : (c.supply call).IsAcceptable limits) : (b.perform call).Stores limits (c.supply call) := by
  obtain ⟨rfl, hcontent, hdiagnostics⟩ := h
  have hgenerations : b.generations = c.generations := congrArg FabricContent.generations hcontent
  cases call with
  | setGenerations generations =>
    refine ⟨rfl, ?_, hdiagnostics⟩
    change { b.content with generations } = _
    rw [hcontent]
    rfl
  | addNode node =>
    have hnodes : b.nodes = c.nodes.map fun node => { node with ports := sortBy id node.ports } :=
      congrArg FabricContent.nodes hcontent
    have hmem : node ∈ (c.supply (.addNode node)).nodes :=
      List.mem_append_right _ (List.mem_singleton_self node)
    have hlength := hc.nodes_length
    change (c.nodes ++ [node]).length ≤ _ at hlength
    have hnone : b.nodeError node = none := by
      refine nodeError_eq_none ?_ (hc.node_valid node hmem).1 (hc.node_valid node hmem).2
        (hc.ports_length node hmem) (hc.ports_nodup node hmem) ?_
      · rw [hnodes, List.length_map]
        rwa [List.length_append, List.length_singleton] at hlength
      · rw [hgenerations]
        exact htimely
    obtain ⟨hlimits, hsame, hadded⟩ := addNode_of_none hnone
    refine ⟨hlimits, hadded.trans ?_, hsame ▸ hdiagnostics⟩
    rw [hcontent]
    unfold FabricContent.stored FabricContent.supply
    dsimp only
    rw [List.map_append]
    rfl
  | addEdge edge =>
    have hedges : b.edges = c.edges.filter fun edge => edge.source ≠ edge.target :=
      congrArg FabricContent.edges hcontent
    have hmem : edge ∈ (c.supply (.addEdge edge)).edges :=
      List.mem_append_right _ (List.mem_singleton_self edge)
    have hlength := hc.edges_length
    change (c.edges ++ [edge]).length ≤ _ at hlength
    have herror : b.edgeError edge =
        if edge.source = edge.target then some .selfLoopRejected else none := by
      refine edgeError_eq ?_ (hc.edge_valid edge hmem) (hc.layers edge hmem) ?_
      · rw [hedges]
        rw [List.length_append, List.length_singleton] at hlength
        exact (Nat.succ_le_succ (List.length_filter_le _ _)).trans hlength
      · rw [hgenerations]
        exact htimely
    have hstored : (c.supply (.addEdge edge)).stored = { c.stored with
        edges := c.stored.edges ++ if edge.source = edge.target then [] else [edge] } := by
      unfold FabricContent.stored FabricContent.supply
      dsimp only
      rw [List.filter_append, List.filter_singleton]
      split_ifs with hloop
      · simp [hloop]
      · simp [hloop]
    by_cases hloop : edge.source = edge.target
    · rw [if_pos hloop, List.append_nil] at hstored
      rw [if_pos hloop] at herror
      obtain ⟨hlimits, hmore, hsame⟩ := addEdge_of_some herror
      refine ⟨hlimits, hsame.trans (hcontent.trans hstored.symm), fun code hcode => ?_⟩
      rcases List.mem_append.mp (hmore ▸ hcode) with hcode | hcode
      · exact hdiagnostics code hcode
      · exact List.mem_singleton.mp hcode
    · rw [if_neg hloop] at herror hstored
      obtain ⟨hlimits, hsame, hadded⟩ := addEdge_of_none herror
      refine ⟨hlimits, hadded.trans ?_, hsame ▸ hdiagnostics⟩
      rw [hcontent, hstored]
  | addEndpoint endpoint =>
    have hendpoints : b.endpoints = c.endpoints := congrArg FabricContent.endpoints hcontent
    have hlength := hc.endpoints_length
    change (c.endpoints ++ [endpoint]).length ≤ _ at hlength
    have hnone : b.endpointError endpoint = none := by
      refine endpointError_eq_none ?_ (hc.endpoint_valid endpoint
        (List.mem_append_right _ (List.mem_singleton_self endpoint)))
      rw [hendpoints]
      rwa [List.length_append, List.length_singleton] at hlength
    obtain ⟨hlimits, hsame, hadded⟩ := addEndpoint_of_none hnone
    refine ⟨hlimits, hadded.trans ?_, hsame ▸ hdiagnostics⟩
    rw [hcontent]
    rfl
  | setSource evidenceSource =>
    refine ⟨rfl, ?_, hdiagnostics⟩
    change { b.content with evidenceSource } = _
    rw [hcontent]
    rfl
  | setLinkStates records =>
    refine ⟨rfl, ?_, hdiagnostics⟩
    change { b.content with linkStates := records } = _
    rw [hcontent]
    rfl
  | setPortStates records =>
    refine ⟨rfl, ?_, hdiagnostics⟩
    change { b.content with portStates := records } = _
    rw [hcontent]
    rfl
  | setCapabilities bindings =>
    refine ⟨rfl, ?_, hdiagnostics⟩
    change { b.content with capabilities := bindings } = _
    rw [hcontent]
    rfl
  | setFailureDomains domains complete =>
    refine ⟨rfl, ?_, hdiagnostics⟩
    change { b.content with failureDomains := domains, membershipComplete := complete } = _
    rw [hcontent]
    rfl

/-- **The run lemma**: acceptable records that are not newer than the topology are stored. -/
theorem stores_of_calls
    (htimely : Run.StepsMeet FabricContent.step FabricContent.IsTimely {} calls)
    (hc : (FabricContent.ofCalls calls).IsAcceptable limits) :
    (calls.foldl FabricSnapshotBuilder.perform (new limits)).Stores limits (.ofCalls calls) := by
  induction calls using List.reverseRecOn with
  | nil => exact ⟨rfl, rfl, fun _ h => absurd h List.not_mem_nil⟩
  | append_singleton calls call ih =>
    have hlast := htimely calls call [] rfl _ (FabricContent.run_step calls)
    have hbefore := htimely.of_append_left
    unfold FabricContent.ofCalls at hc ih hlast ⊢
    rw [List.foldl_append] at hc ⊢
    rw [List.foldl_append]
    exact (ih hbefore hc.of_supply).perform hlast hc

end Steps

/-! ## What is built -/

section Complete

variable {b : FabricSnapshotBuilder} {limits : ResourceLimits} {c : FabricContent}

/-- **Admissible records** pass the checks of `Build`. -/
theorem Stores.isBuildable (h : b.Stores limits c) (hv : validateLimits limits = none)
    (hc : c.IsAdmissible limits) : b.IsBuildable := by
  obtain ⟨rfl, hcontent, -⟩ := h
  have hnodes : b.nodes = c.nodes.map fun node => { node with ports := sortBy id node.ports } :=
    congrArg FabricContent.nodes hcontent
  have hedges : b.edges = c.edges.filter fun edge => edge.source ≠ edge.target :=
    congrArg FabricContent.edges hcontent
  have hendpoints : b.endpoints = c.endpoints := congrArg FabricContent.endpoints hcontent
  have hlinks : b.linkStates = c.linkStates := congrArg FabricContent.linkStates hcontent
  have hports : b.portStates = c.portStates := congrArg FabricContent.portStates hcontent
  have hbindings : b.capabilities = c.capabilities := congrArg FabricContent.capabilities hcontent
  have hdomains : b.failureDomains = c.failureDomains :=
    congrArg FabricContent.failureDomains hcontent
  -- what a node publishes is stored with it
  have hpublished {id : NodeId} {port : PortId} (h : ∃ n ∈ c.nodes, n.id = id ∧ port ∈ n.ports) :
      ∃ n ∈ b.nodes, n.id = id ∧ port ∈ n.ports := by
    obtain ⟨n, hn, hid, hport⟩ := h
    rw [hnodes]
    exact ⟨_, List.mem_map_of_mem hn, hid, (mem_sortBy _ _).mpr hport⟩
  have hedge {e : EdgeRecord} (he : e ∈ b.edges) : e ∈ c.edges :=
    List.mem_of_mem_filter (hedges ▸ he)
  refine {
    limits := hv
    nodes := ?_
    edges := ?_
    endpoints := hendpoints ▸ hc.endpoints
    edge_source := fun e he => hpublished (hc.edge_source e (hedge he))
    edge_target := fun e he => hpublished (hc.edge_target e (hedge he))
    endpoint_node := fun e he => hpublished (hc.endpoint_node e (hendpoints ▸ he))
    counts := ?_
    domains := fun d hd => ?_
    duplicates := ?_ }
  · rw [hnodes, List.map_map]
    exact hc.nodes
  · rw [hedges]
    exact hc.edges.sublist (List.filter_sublist.map _)
  · unfold recordLimitError exceeds
    rw [hlinks, hports, hbindings, hdomains]
    simp [not_lt.mpr hc.linkStates_length, not_lt.mpr hc.portStates_length,
      not_lt.mpr hc.bindings_length, not_lt.mpr hc.domains_length]
  · rw [hdomains] at hd
    unfold failureDomainError exceeds
    simp [hc.domain_valid d hd, not_lt.mpr (hc.members_length d hd)]
  · rw [recordDuplicateError_eq_none_iff, hlinks, hports, hbindings, hdomains]
    exact ⟨isSpread_of_nodup hc.links, isSpread_of_nodup hc.ports, isSpread_of_nodup hc.bindings,
      isSpread_of_nodup hc.domains⟩

/-- **The build of admissible records** is left to the ceiling of the encoding and to its digest. -/
theorem Stores.exists_build_iff (h : b.Stores limits c) (hv : validateLimits limits = none)
    (hc : c.IsAdmissible limits) {sha : List UInt8 → Sha256Digest} :
    (∃ s, b.build sha = .ok s) ↔ c.stored.encodedSize ≤ 1024 + c.stored.recordCount * 128 ∧
      (sha c.stored.word).isZero = false := by
  rw [FabricSnapshotBuilder.exists_build_iff, h.content]
  exact ⟨fun hbuild => hbuild.2, fun hfits => ⟨h.isBuildable hv hc, hfits⟩⟩

end Complete

/-- **When admissible records can be built**: the builder keeps all of them but the edges from a node
to itself, and `Build` succeeds exactly when the encoding of what it keeps fits the ceiling and its
digest is not zero. -/
theorem build_complete_iff {sha : List UInt8 → Sha256Digest} {limits : ResourceLimits}
    {calls : List BuilderCall} (hv : validateLimits limits = none)
    (htimely : Run.StepsMeet FabricContent.step FabricContent.IsTimely {} calls)
    (hc : (FabricContent.ofCalls calls).IsAdmissible limits) :
    (∃ s, (calls.foldl FabricSnapshotBuilder.perform (new limits)).build sha = .ok s) ↔
      (FabricContent.ofCalls calls).stored.encodedSize ≤
        1024 + (FabricContent.ofCalls calls).stored.recordCount * 128 ∧
      (sha (FabricContent.ofCalls calls).stored.word).isZero = false :=
  (stores_of_calls htimely hc.toIsAcceptable).exists_build_iff hv hc

end FabricSnapshotBuilder

/-- A node of the first topology generation and two link states can be built. -/
theorem build_complete_iff_currentCalls :
    ∃ s, (currentCalls.foldl FabricSnapshotBuilder.perform (.new {})).build onesHash = .ok s := by
  have hc : (FabricContent.ofCalls currentCalls).IsAdmissible {} := by
    refine ⟨⟨?_, ?_, ?_, ?_, ?_, ?_, ?_, ?_, ?_⟩, ?_, ?_, ?_, ?_, ?_, ?_, ?_, ?_, ?_, ?_, ?_, ?_, ?_,
      ?_, ?_, ?_⟩ <;> decide +kernel
  exact (FabricSnapshotBuilder.build_complete_iff rfl (by decide +kernel) hc).mpr
    ⟨by decide +kernel, by rw [onesHash]; decide +kernel⟩

/-! ## Ports -/

/-- A node with eighty ports. -/
def manyPorts : NodeRecord where
  id := .tagged 0 1
  attachment := .tagged 0 1
  entityGeneration := default
  structuralGeneration := default
  ports := (List.range 80).map fun i => .tagged 1 (.ofNat i)

/-- It keeps to the rules, and cannot be built under any hash. -/
theorem not_build_complete_manyPorts : validateLimits {} = none ∧
    Run.StepsMeet FabricContent.step FabricContent.IsTimely {} [.addNode manyPorts] ∧
    (FabricContent.ofCalls [.addNode manyPorts]).IsAdmissible {} ∧
    ∀ sha, ¬ ∃ s, ([BuilderCall.addNode manyPorts].foldl FabricSnapshotBuilder.perform
      (.new {})).build sha = .ok s := by
  have htimely : Run.StepsMeet FabricContent.step FabricContent.IsTimely {}
      [.addNode manyPorts] := by decide +kernel
  have hc : (FabricContent.ofCalls [.addNode manyPorts]).IsAdmissible {} := by
    refine ⟨⟨?_, ?_, ?_, ?_, ?_, ?_, ?_, ?_, ?_⟩, ?_, ?_, ?_, ?_, ?_, ?_, ?_, ?_, ?_, ?_, ?_, ?_, ?_,
      ?_, ?_, ?_⟩ <;> decide +kernel
  refine ⟨rfl, htimely, hc, fun sha hbuild => ?_⟩
  have hstores := FabricSnapshotBuilder.stores_of_calls htimely hc.toIsAcceptable
  -- eighty ports take more than the room that is left for a node
  have hover : ¬ (FabricContent.ofCalls [.addNode manyPorts]).stored.encodedSize ≤
      1024 + (FabricContent.ofCalls [.addNode manyPorts]).stored.recordCount * 128 := by
    decide +kernel
  exact hover ((hstores.exists_build_iff rfl hc).mp hbuild).1

end PathPlanner
