import PathPlanner.Library.Run
import PathPlanner.Snapshot.Fabric

/-!
# What a snapshot represents

Every lookup in a snapshot relies on its lists being sorted by key with no two records of one key,
and on the references and generations of its records. The builder checks part of this when a record
is added and part of it when the snapshot is built. Two of the checks look at less than they mean to:
the tests for duplicates of the consumed records compare neighbours of a list that is not sorted yet,
and a structural generation is compared with the topology generation of the moment.

## Main definitions

* `FabricSnapshot.IsRepresentation`: what the lookups rely on
* `BuilderCall`, `FabricSnapshotBuilder.perform`: the calls that come before `Build`
* `FabricSnapshotBuilder.IsCoherent`: what a builder has to hold when it builds
* `BuilderCall.Agrees`: a call that keeps its builder coherent

## Main results

* `FabricSnapshotBuilder.perform_isCoherent`: the step lemma
* `FabricSnapshotBuilder.build_isRepresentation_iff`: when the calls lead to a representation
* `not_build_isRepresentation`: a record that is published twice, and a generation that is lowered
-/

namespace PathPlanner

open SortedList

/-- The lists of the snapshot are sorted by key without repetition, references are to records of the
snapshot, and no record is newer than the topology. -/
structure FabricSnapshot.IsRepresentation (s : FabricSnapshot) : Prop where
  nodes : s.nodes.Pairwise (·.id < ·.id)
  edges : s.edges.Pairwise (·.id < ·.id)
  endpoints : s.endpoints.Pairwise (·.id < ·.id)
  linkStates : s.linkStates.records.Pairwise (·.link < ·.link)
  portStates : s.portStates.records.Pairwise (·.port < ·.port)
  capabilities : s.capabilities.bindings.Pairwise (·.key < ·.key)
  failureDomains : s.failureDomains.domains.Pairwise (·.domain < ·.domain)
  edge_source : ∀ e ∈ s.edges, ∃ n ∈ s.nodes, n.id = e.source ∧ e.fromPort ∈ n.ports
  edge_target : ∀ e ∈ s.edges, ∃ n ∈ s.nodes, n.id = e.target ∧ e.toPort ∈ n.ports
  endpoint_node : ∀ e ∈ s.endpoints, ∃ n ∈ s.nodes, n.id = e.node ∧ e.port ∈ n.ports
  no_self_loop : ∀ e ∈ s.edges, e.source ≠ e.target
  layers : ∀ e ∈ s.edges, relationshipMatchesLayer e.relationship e.layer = true
  node_generations : ∀ n ∈ s.nodes, n.structuralGeneration ≤ s.generations.topology
  edge_generations : ∀ e ∈ s.edges, e.structuralGeneration ≤ s.generations.topology

/-! ## Calls -/

/-- A call of a `FabricSnapshotBuilder` before `Build`. -/
inductive BuilderCall
  | setGenerations (generations : SnapshotGenerations)
  | setSource (evidenceSource : EvidenceSource)
  | addNode (node : NodeRecord)
  | addEdge (edge : EdgeRecord)
  | addEndpoint (endpoint : EndpointRecord)
  | setLinkStates (records : List LinkStateRecord)
  | setPortStates (records : List PortStateRecord)
  | setCapabilities (bindings : List CapabilityBinding)
  | setFailureDomains (domains : List FailureDomainRecord) (membershipComplete : Bool)

namespace FabricSnapshotBuilder

/-- The effect of a call. -/
def perform (b : FabricSnapshotBuilder) : BuilderCall → FabricSnapshotBuilder
  | .setGenerations generations => b.setGenerations generations
  | .setSource evidenceSource => b.setSource evidenceSource
  | .addNode node => b.addNode node
  | .addEdge edge => b.addEdge edge
  | .addEndpoint endpoint => b.addEndpoint endpoint
  | .setLinkStates records => b.setLinkStates records
  | .setPortStates records => b.setPortStates records
  | .setCapabilities bindings => b.setCapabilities bindings
  | .setFailureDomains domains complete => b.setFailureDomains domains complete

/-- A call as a step: it is always possible. -/
def step (b : FabricSnapshotBuilder) (call : BuilderCall) : Option FabricSnapshotBuilder :=
  some (b.perform call)

/-- The consumed records have different keys, and no accepted record is newer than the topology. -/
structure IsCoherent (b : FabricSnapshotBuilder) : Prop where
  links : (b.linkStates.map (·.link)).Nodup
  ports : (b.portStates.map (·.port)).Nodup
  bindings : (b.capabilities.map (·.key)).Nodup
  domains : (b.failureDomains.map (·.domain)).Nodup
  nodes : ∀ n ∈ b.nodes, n.structuralGeneration ≤ b.generations.topology
  edges : ∀ e ∈ b.edges, e.structuralGeneration ≤ b.generations.topology

end FabricSnapshotBuilder

/-- The records that the call hands over have different keys, and the topology generation that it
sets is not below that of an accepted record. -/
def BuilderCall.Agrees (b : FabricSnapshotBuilder) : BuilderCall → Prop
  | .setGenerations generations =>
    (∀ n ∈ b.nodes, n.structuralGeneration ≤ generations.topology) ∧
      ∀ e ∈ b.edges, e.structuralGeneration ≤ generations.topology
  | .setLinkStates records => (records.map (·.link)).Nodup
  | .setPortStates records => (records.map (·.port)).Nodup
  | .setCapabilities bindings => (bindings.map (·.key)).Nodup
  | .setFailureDomains domains _ => (domains.map (·.domain)).Nodup
  | .setSource _ | .addNode _ | .addEdge _ | .addEndpoint _ => True

namespace FabricSnapshotBuilder

section Calls

variable {b b' : FabricSnapshotBuilder} {call : BuilderCall} {calls : List BuilderCall}
  {limits : ResourceLimits}

/-- The generation of an accepted node. -/
theorem generation_of_nodeError {node : NodeRecord} (h : b.nodeError node = none) :
    node.structuralGeneration ≤ b.generations.topology := by
  unfold nodeError at h
  split_ifs at h with _ _ _ _ _ hgeneration
  exact not_lt.mp hgeneration

/-- The layer and the generation of an accepted edge. -/
theorem layer_of_edgeError {edge : EdgeRecord} (h : b.edgeError edge = none) :
    relationshipMatchesLayer edge.relationship edge.layer = true ∧
      edge.structuralGeneration ≤ b.generations.topology := by
  unfold edgeError at h
  split_ifs at h with _ _ _ hlayer hgeneration
  rw [Bool.not_eq_true', Bool.not_eq_false] at hlayer
  exact ⟨hlayer, not_lt.mp hgeneration⟩

/-- A node of `AddNode` was there or is the accepted one with its ports sorted. -/
theorem mem_addNode {node n : NodeRecord} (h : n ∈ (b.addNode node).nodes) :
    n ∈ b.nodes ∨ b.nodeError node = none ∧ n = { node with ports := sortBy id node.ports } := by
  unfold addNode at h
  split at h
  · exact Or.inl h
  · next hnone =>
    rcases List.mem_append.mp h with h | h
    · exact Or.inl h
    · exact Or.inr ⟨hnone, List.mem_singleton.mp h⟩

/-- An edge of `AddEdge` was there or is the accepted one. -/
theorem mem_addEdge {edge e : EdgeRecord} (h : e ∈ (b.addEdge edge).edges) :
    e ∈ b.edges ∨ b.edgeError edge = none ∧ e = edge := by
  unfold addEdge at h
  split at h
  · exact Or.inl h
  · next hnone =>
    rcases List.mem_append.mp h with h | h
    · exact Or.inl h
    · exact Or.inr ⟨hnone, List.mem_singleton.mp h⟩

/-- What the three `Add` calls leave. -/
structure SameInputs (b b' : FabricSnapshotBuilder) : Prop where
  generations : b'.generations = b.generations
  linkStates : b'.linkStates = b.linkStates
  portStates : b'.portStates = b.portStates
  capabilities : b'.capabilities = b.capabilities
  failureDomains : b'.failureDomains = b.failureDomains

theorem addNode_frame (node : NodeRecord) :
    SameInputs b (b.addNode node) ∧ (b.addNode node).edges = b.edges := by
  unfold addNode
  split <;> exact ⟨⟨rfl, rfl, rfl, rfl, rfl⟩, rfl⟩

theorem addEdge_frame (edge : EdgeRecord) :
    SameInputs b (b.addEdge edge) ∧ (b.addEdge edge).nodes = b.nodes := by
  unfold addEdge
  split <;> exact ⟨⟨rfl, rfl, rfl, rfl, rfl⟩, rfl⟩

theorem addEndpoint_frame (endpoint : EndpointRecord) :
    SameInputs b (b.addEndpoint endpoint) ∧ (b.addEndpoint endpoint).nodes = b.nodes ∧
      (b.addEndpoint endpoint).edges = b.edges := by
  unfold addEndpoint
  split <;> exact ⟨⟨rfl, rfl, rfl, rfl, rfl⟩, rfl, rfl⟩

/-- A builder with the same inputs is coherent when its nodes and edges are old enough. -/
theorem IsCoherent.of_sameInputs (h : b.IsCoherent) (hsame : SameInputs b b')
    (hnodes : ∀ n ∈ b'.nodes, n.structuralGeneration ≤ b.generations.topology)
    (hedges : ∀ e ∈ b'.edges, e.structuralGeneration ≤ b.generations.topology) :
    b'.IsCoherent where
  links := hsame.linkStates ▸ h.links
  ports := hsame.portStates ▸ h.ports
  bindings := hsame.capabilities ▸ h.bindings
  domains := hsame.failureDomains ▸ h.domains
  nodes := hsame.generations ▸ hnodes
  edges := hsame.generations ▸ hedges

/-- **The step lemma**: a call that agrees with a coherent builder keeps it coherent. -/
theorem perform_isCoherent (hcall : call.Agrees b) (h : b.IsCoherent) :
    (b.perform call).IsCoherent := by
  cases call with
  | setGenerations generations => exact { h with nodes := hcall.1, edges := hcall.2 }
  | setSource evidenceSource => exact { h with }
  | addNode node =>
    obtain ⟨hsame, hedges⟩ := addNode_frame (b := b) node
    refine h.of_sameInputs hsame (fun n hn => ?_) fun e he => h.edges e (hedges ▸ he)
    rcases mem_addNode hn with hn | ⟨hnone, rfl⟩
    · exact h.nodes n hn
    · have hgeneration := generation_of_nodeError hnone
      exact hgeneration
  | addEdge edge =>
    obtain ⟨hsame, hnodes⟩ := addEdge_frame (b := b) edge
    refine h.of_sameInputs hsame (fun n hn => h.nodes n (hnodes ▸ hn)) fun e he => ?_
    rcases mem_addEdge he with he | ⟨hnone, rfl⟩
    · exact h.edges e he
    · exact (layer_of_edgeError hnone).2
  | addEndpoint endpoint =>
    obtain ⟨hsame, hnodes, hedges⟩ := addEndpoint_frame (b := b) endpoint
    exact h.of_sameInputs hsame (fun n hn => h.nodes n (hnodes ▸ hn)) fun e he =>
      h.edges e (hedges ▸ he)
  | setLinkStates records => exact { h with links := hcall }
  | setPortStates records => exact { h with ports := hcall }
  | setCapabilities bindings => exact { h with bindings := hcall }
  | setFailureDomains domains complete => exact { h with domains := hcall }

/-- No call adds an edge that disagrees with its layer. -/
theorem perform_layers (h : ∀ e ∈ b.edges, relationshipMatchesLayer e.relationship e.layer = true) :
    ∀ e ∈ (b.perform call).edges, relationshipMatchesLayer e.relationship e.layer = true := by
  cases call with
  | addNode node =>
    intro e he
    exact h e ((addNode_frame (b := b) node).2 ▸ he)
  | addEdge edge =>
    intro e he
    rcases mem_addEdge he with he | ⟨hnone, rfl⟩
    · exact h e he
    · exact (layer_of_edgeError hnone).1
  | addEndpoint endpoint =>
    intro e he
    exact h e ((addEndpoint_frame (b := b) endpoint).2.2 ▸ he)
  | _ => exact h

/-- **The run lemma**: calls that agree with their builders end in a coherent builder. -/
theorem run_isCoherent (hcalls : Run.StepsMeet step (fun b call => call.Agrees b) (new limits) calls)
    (hr : Run.run step (new limits) calls = some b) : b.IsCoherent := by
  refine hcalls.invariant (fun b call b' hagrees hstep hb => ?_) hr ?_
  · obtain rfl := Option.some.inj hstep
    exact perform_isCoherent hagrees hb
  · exact ⟨List.nodup_nil, List.nodup_nil, List.nodup_nil, List.nodup_nil, by simp [new],
      by simp [new]⟩

/-- After any calls the edges agree with their layers. -/
theorem run_layers (hr : Run.run step (new limits) calls = some b) :
    ∀ e ∈ b.edges, relationshipMatchesLayer e.relationship e.layer = true := by
  refine Run.invariant_of_run (I := fun b : FabricSnapshotBuilder =>
    ∀ e ∈ b.edges, relationshipMatchesLayer e.relationship e.layer = true)
    (fun b call b' hstep hb => ?_) hr (by simp [new])
  obtain rfl := Option.some.inj hstep
  exact perform_layers hb

end Calls

/-! ## Build -/

section Build

variable {b : FabricSnapshotBuilder} {calls : List BuilderCall} {limits : ResourceLimits}
  {sha : List UInt8 → Sha256Digest} {s : FabricSnapshot}

/-- A snapshot represents what it should exactly when its builder was coherent. -/
theorem isRepresentation_iff_isCoherent (h : b.build sha = .ok s)
    (hlayers : ∀ e ∈ b.edges, relationshipMatchesLayer e.relationship e.layer = true) :
    s.IsRepresentation ↔ b.IsCoherent := by
  obtain ⟨hpublishes, -⟩ := records_eq_ok (records_of_build h)
  have hgenerations := hpublishes.generations
  have hnodes := hpublishes.nodes
  have hedges := hpublishes.edges
  have hkeys : (b.failureDomains.map normalizeDomain).map (·.domain) =
      b.failureDomains.map (·.domain) := List.map_map ..
  constructor
  · intro hs
    have hl := hs.linkStates
    have hp := hs.portStates
    have hc := hs.capabilities
    have hd := hs.failureDomains
    rw [hpublishes.linkStates] at hl
    rw [hpublishes.portStates] at hp
    rw [hpublishes.capabilities] at hc
    rw [hpublishes.failureDomains] at hd
    refine ⟨pairwise_lt_sortBy_iff.mp hl, pairwise_lt_sortBy_iff.mp hp,
      pairwise_lt_sortBy_iff.mp hc, hkeys ▸ pairwise_lt_sortBy_iff.mp hd, fun n hn => ?_,
      fun e he => ?_⟩
    · exact hgenerations ▸ hs.node_generations n (hnodes ▸ (mem_sortBy _ _).mpr hn)
    · exact hgenerations ▸ hs.edge_generations e (hedges ▸ (mem_sortBy _ _).mpr he)
  · intro hb
    exact {
      nodes := s.nodes_sorted
      edges := s.edges_sorted
      endpoints := s.endpoints_sorted
      linkStates := by
        rw [hpublishes.linkStates]
        exact pairwise_lt_sortBy_iff.mpr hb.links
      portStates := by
        rw [hpublishes.portStates]
        exact pairwise_lt_sortBy_iff.mpr hb.ports
      capabilities := by
        rw [hpublishes.capabilities]
        exact pairwise_lt_sortBy_iff.mpr hb.bindings
      failureDomains := by
        rw [hpublishes.failureDomains]
        exact pairwise_lt_sortBy_iff.mpr (hkeys ▸ hb.domains)
      edge_source := s.edge_source
      edge_target := s.edge_target
      endpoint_node := s.endpoint_node
      no_self_loop := s.no_self_loop
      layers := fun e he => hlayers e ((mem_sortBy _ _).mp (hedges ▸ he))
      node_generations := fun n hn => hgenerations ▸ hb.nodes n ((mem_sortBy _ _).mp (hnodes ▸ hn))
      edge_generations := fun e he => hgenerations ▸ hb.edges e ((mem_sortBy _ _).mp (hedges ▸ he)) }

/-- **Representation**: a snapshot built after any calls represents what it should exactly when the
consumed records have different keys and no accepted record is newer than the topology at the end;
after calls that agree with their builders it does. -/
theorem build_isRepresentation_iff (hr : Run.run step (new limits) calls = some b)
    (h : b.build sha = .ok s) : (s.IsRepresentation ↔ b.IsCoherent) ∧
      (Run.StepsMeet step (fun b call => call.Agrees b) (new limits) calls → s.IsRepresentation) := by
  have hiff := isRepresentation_iff_isCoherent h (run_layers hr)
  exact ⟨hiff, fun hcalls => hiff.mpr (run_isCoherent hcalls hr)⟩

end Build

end FabricSnapshotBuilder

/-! ## Two records of one link, and a lowered generation -/

/-- The link state of one link is published twice, with another one between. -/
def repeatedRecord : List BuilderCall :=
  [.setLinkStates [⟨.tagged 0 1, .up⟩, ⟨.tagged 0 2, .up⟩, ⟨.tagged 0 1, .down⟩]]

/-- A node of the first topology generation is added before the generations are reset. -/
def loweredTopology : List BuilderCall :=
  [.setGenerations { topology := .ofNat 1 },
    .addNode {
      id := .tagged 0 1
      attachment := .tagged 0 1
      entityGeneration := default
      structuralGeneration := .ofNat 1
      ports := [] },
    .setGenerations {}]

/-- The builder after some calls. -/
def builderAfter (calls : List BuilderCall) : FabricSnapshotBuilder :=
  calls.foldl FabricSnapshotBuilder.perform (.new {})

/-- A hash that is not degenerate. -/
def onesHash : List UInt8 → Sha256Digest := fun _ => ⟨Vector.replicate 32 1⟩

/-- Both builds succeed, and what they build is not a representation. -/
theorem not_build_isRepresentation :
    (Run.run FabricSnapshotBuilder.step (.new {}) repeatedRecord =
        some (builderAfter repeatedRecord) ∧
      ∃ s, (builderAfter repeatedRecord).build onesHash = .ok s ∧ ¬ s.IsRepresentation) ∧
    Run.run FabricSnapshotBuilder.step (.new {}) loweredTopology =
        some (builderAfter loweredTopology) ∧
      ∃ s, (builderAfter loweredTopology).build onesHash = .ok s ∧ ¬ s.IsRepresentation := by
  have hbuilds : ∀ calls ∈ [repeatedRecord, loweredTopology],
      ((builderAfter calls).build onesHash).toOption.isSome = true := by decide +kernel
  have hrun {calls : List BuilderCall} (hcalls : calls ∈ [repeatedRecord, loweredTopology]) :
      Run.run FabricSnapshotBuilder.step (.new {}) calls = some (builderAfter calls) := by
    rcases List.mem_pair.mp hcalls with rfl | rfl <;> rfl
  have hnot {calls : List BuilderCall} (hcalls : calls ∈ [repeatedRecord, loweredTopology])
      (hincoherent : ¬ (builderAfter calls).IsCoherent) :
      ∃ s, (builderAfter calls).build onesHash = .ok s ∧ ¬ s.IsRepresentation := by
    have hbuild := FabricSnapshotBuilder.eq_ok_get (hbuilds calls hcalls)
    refine ⟨_, hbuild, fun hs => hincoherent ?_⟩
    exact (FabricSnapshotBuilder.isRepresentation_iff_isCoherent hbuild
      (FabricSnapshotBuilder.run_layers (hrun hcalls))).mp hs
  have hfirst := List.mem_cons_self (a := repeatedRecord) (l := [loweredTopology])
  have hsecond := List.mem_cons_of_mem repeatedRecord (List.mem_singleton_self loweredTopology)
  refine ⟨⟨hrun hfirst, hnot hfirst fun hcoherent => ?_⟩, hrun hsecond,
    hnot hsecond fun hcoherent => ?_⟩
  · exact absurd hcoherent.links (by decide +kernel)
  · exact absurd hcoherent.nodes (by decide +kernel)

/-- A node of the first topology generation and the states of two links. -/
def currentCalls : List BuilderCall :=
  loweredTopology.take 2 ++ [.setLinkStates [⟨.tagged 0 2, .up⟩, ⟨.tagged 0 1, .down⟩]]

/-- They build a representation. -/
theorem build_isRepresentation_iff_currentCalls :
    ∃ s, (builderAfter currentCalls).build onesHash = .ok s ∧
      s.IsRepresentation := by
  have hbuild := FabricSnapshotBuilder.eq_ok_get
    (x := (builderAfter currentCalls).build onesHash) (by decide +kernel)
  have hrun : Run.run FabricSnapshotBuilder.step (.new {}) currentCalls =
      some (builderAfter currentCalls) := rfl
  refine ⟨_, hbuild, (FabricSnapshotBuilder.build_isRepresentation_iff hrun hbuild).1.mpr ?_⟩
  exact ⟨by decide +kernel, by decide +kernel, by decide +kernel, by decide +kernel,
    by decide +kernel, by decide +kernel⟩

end PathPlanner
