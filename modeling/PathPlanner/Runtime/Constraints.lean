import PathPlanner.Planner.Ranked
import PathPlanner.Runtime.Currentness
import PathPlanner.View.Eligible

/-!
# Hard constraints

No path leaves the planner that breaks a hard constraint: every candidate of a planning result is a
simple path of published edges between the nodes of the endpoints that respects the hop bound,
avoids what is forbidden, meets the capability requirements and visits the stages of required
transit in order.

## Main definitions

* `IsHardValid`: what the hard constraints of a request ask of a path

## Main results

* `RuntimeState.planResult_cases`: the candidates of a result are those of a computation
* `Passes.isHardValid`: the candidates of a computation respect the hard constraints
* `RuntimeState.planResult_isHardValid`: so do those of every planning result, and they are ranked
-/

namespace PathPlanner

open Multigraph

/-- What the hard constraints of a request ask of a path, in terms of the published records. -/
structure IsHardValid (snapshot : FabricSnapshot) (request : PlanningRequest)
    (path : CandidatePath) : Prop where
  wellFormed : path.isWellFormed = true
  simple : path.nodes.Nodup
  source : ∃ record, snapshot.findEndpoint request.source.id = some record ∧
    path.nodes.head? = some record.node
  destination : ∃ record, snapshot.findEndpoint request.destination.id = some record ∧
    path.nodes.getLast? = some record.node
  edges : ∀ hop ∈ path.hops, ∃ edge ∈ snapshot.edges, hop.IsOf edge ∧
    edge.layer = request.constraints.layer
  maxHops : ∀ bound ∈ request.constraints.maxHops, path.hops.length ≤ bound.value
  nodes : ∀ node ∈ path.nodes, node ∉ request.constraints.forbiddenNodes ∧
    DomainPermitted snapshot request (.forNode node)
  links : ∀ hop ∈ path.hops, hop.link ∉ request.constraints.forbiddenLinks ∧
    DomainPermitted snapshot request (.forLink hop.link)
  ports : ∀ hop ∈ path.hops, ∀ port ∈ [hop.fromPort, hop.toPort],
    port ∉ request.constraints.forbiddenPorts ∧ DomainPermitted snapshot request (.forPort port)
  everyNode : ∀ r ∈ request.constraints.requiredCapabilities, r.scope = .everyNode →
    ∀ node ∈ path.nodes, Meets snapshot (.forNode node) r
  everyLink : ∀ r ∈ request.constraints.requiredCapabilities, r.scope = .everyLink →
    ∀ hop ∈ path.hops, Meets snapshot (.forLink hop.link) r
  everyPort : ∀ r ∈ request.constraints.requiredCapabilities, r.scope = .everyPort →
    ∀ hop ∈ path.hops, ∀ port ∈ [hop.fromPort, hop.toPort], Meets snapshot (.forPort port) r
  sourceNode : ∀ r ∈ request.constraints.requiredCapabilities, r.scope = .sourceNode →
    Meets snapshot (.forNode path.source) r
  destinationNode : ∀ r ∈ request.constraints.requiredCapabilities, r.scope = .destinationNode →
    Meets snapshot (.forNode path.destination) r
  transit : VisitsInOrder request.constraints.requiredTransit path.nodes

/-! ## Computations -/

namespace Passes

variable {sha : List UInt8 → Sha256Digest} {capture : PlanCapture} {request : PlanningRequest}
  (p : Passes sha capture request)

/-- The view of a computation is the eligible subgraph, with the endpoints in it. -/
theorem eligible_spec (hu : p.snapshot.UniqueKeys) :
    IsEligibleSubgraph p.snapshot request capture.limits p.built.view ∧
      (p.built.sourceView < p.built.view.nodeCount ∧
        (p.built.view.nodeAt p.built.sourceView).id = p.source.node.id) ∧
      (p.built.destinationView < p.built.view.nodeCount ∧
        (p.built.view.nodeAt p.built.destinationView).id = p.destination.node.id) ∧
      ∀ r ∈ request.constraints.requiredCapabilities,
        (r.scope = .sourceNode → Meets p.snapshot (.forNode p.source.node.id) r) ∧
        (r.scope = .destinationNode → Meets p.snapshot (.forNode p.destination.node.id) r) :=
  buildPlanningView_spec hu p.buildPlanningView_eq

/-- **A found path respects the hard constraints.** -/
theorem isHardValid_of_isFoundPath (hu : p.snapshot.UniqueKeys) {path : List ℕ}
    (h : IsFoundPath p.built.view request (enumerationOptions capture.limits request p.built) path) :
    IsHardValid p.snapshot request
      (buildCandidatePath p.built.view (p.built.view.rawPath p.built.sourceView path)) := by
  obtain ⟨hsub, ⟨hsl, hsid⟩, ⟨-, hdid⟩, hends⟩ := p.eligible_spec hu
  have hv := p.isCheckedView
  obtain ⟨hrecord, hnode⟩ := resolveEndpoint_eq_ok p.resolves_source
  obtain ⟨hrecord', hnode'⟩ := resolveEndpoint_eq_ok p.resolves_destination
  have hsource := (FabricSnapshot.findNode_eq_some_iff.mp hnode).2
  have hdestination := (FabricSnapshot.findNode_eq_some_iff.mp hnode').2
  have hw : p.built.view.graph.IsWalk p.built.sourceView path := h.candidate.isWalk
  have hfinish : p.built.view.graph.finish p.built.sourceView path = p.built.destinationView :=
    h.candidate.finish
  -- the nodes and the edges of the path are eligible
  have hnodes : ∀ id ∈ (p.built.view.graph.nodes p.built.sourceView path).map
      (fun i => (p.built.view.nodeAt i).id), ∃ n, n.id = id ∧
        EligibleNode p.snapshot request n := by
    intro id hid
    obtain ⟨i, hi, rfl⟩ := List.mem_map.mp hid
    have hlt := hv.wellFormed.lt_of_mem_nodes hsl hw i hi
    exact ⟨_, rfl, (hsub.node_iff _ (hv.node_mem i hlt)).mp ⟨i, hlt, rfl⟩⟩
  have hedges : ∀ hop ∈ path.map (buildHop p.built.view), ∃ edge ∈ p.snapshot.edges,
      hop.IsOf edge ∧ EligibleEdge p.snapshot request edge := by
    intro hop hh
    obtain ⟨k, -, hlt, rfl, hm⟩ := exists_edge_of_mem_hops hv hw hh
    exact ⟨_, hm, buildHop_isOf k, hsub.eligible hlt hm⟩
  have hlast : (p.built.view.graph.nodes p.built.sourceView path).getLast? =
      some p.built.destinationView := by
    rw [nodes_eq_dropLast_append, List.getLast?_concat, hfinish]
  constructor
  case wellFormed => exact isWellFormed_buildCandidatePath hv hsl hw
  case simple => exact isSimple_buildCandidatePath hv hsl hw h.candidate.isSimple
  case source =>
    refine ⟨_, hrecord, ?_⟩
    rw [nodes_buildCandidatePath, ← hsource, ← hsid]
    rfl
  case destination =>
    refine ⟨_, hrecord', ?_⟩
    rw [nodes_buildCandidatePath, List.getLast?_map, hlast, ← hdestination, ← hdid]
    rfl
  case edges =>
    rw [hops_buildCandidatePath]
    intro hop hh
    obtain ⟨edge, hm, hof, he⟩ := hedges hop hh
    exact ⟨edge, hm, hof, he.layer⟩
  case maxHops =>
    intro bound hbound
    have hhops : WithinHops request.constraints.hopBound path.length := h.candidate.withinHops
    have hlen := hv.wellFormed.length_lt_of_isSimple hsl hw h.candidate.isSimple
    have hcount := hv.wellFormed.nodeCount_lt
    rw [hops_buildCandidatePath, List.length_map]
    unfold WithinHops ConstraintSet.hopBound noHopBound at hhops
    rw [Option.mem_def.mp hbound] at hhops
    dsimp only at hhops
    omega
  case nodes =>
    rw [nodes_buildCandidatePath]
    intro id hid
    obtain ⟨n, rfl, hn⟩ := hnodes id hid
    exact ⟨hn.permitted, hn.compliant.permitted⟩
  case links =>
    rw [hops_buildCandidatePath]
    intro hop hh
    obtain ⟨edge, -, hof, he⟩ := hedges hop hh
    rw [hof.link]
    exact ⟨he.linkPermitted, (he.compliant _ (by simp)).permitted⟩
  case ports =>
    rw [hops_buildCandidatePath]
    intro hop hh
    obtain ⟨edge, -, hof, he⟩ := hedges hop hh
    rw [hof.fromPort, hof.toPort]
    intro port hp
    refine ⟨he.portsPermitted port hp, (he.compliant (.forPort port) ?_).permitted⟩
    rcases List.mem_cons.mp hp with rfl | hp
    · simp
    · rw [List.mem_singleton.mp hp]
      simp
  case everyNode =>
    rw [nodes_buildCandidatePath]
    intro r hr hscope id hid
    obtain ⟨n, rfl, hn⟩ := hnodes id hid
    exact hn.capable r hr hscope
  case everyLink =>
    rw [hops_buildCandidatePath]
    intro r hr hscope hop hh
    obtain ⟨edge, -, hof, he⟩ := hedges hop hh
    rw [hof.link]
    exact he.linkCapable r hr hscope
  case everyPort =>
    rw [hops_buildCandidatePath]
    intro r hr hscope hop hh
    obtain ⟨edge, -, hof, he⟩ := hedges hop hh
    rw [hof.fromPort, hof.toPort]
    obtain ⟨hfrom, hto⟩ := he.portsCapable r hr hscope
    exact List.forall_mem_cons.mpr ⟨hfrom, List.forall_mem_singleton.mpr hto⟩
  case sourceNode =>
    rw [source_buildCandidatePath, hsid]
    exact fun r hr => (hends r hr).1
  case destinationNode =>
    rw [destination_buildCandidatePath, hfinish, hdid]
    exact fun r hr => (hends r hr).2
  case transit =>
    rw [nodes_buildCandidatePath]
    exact h.visits

/-- **The candidates of a computation** respect the hard constraints. -/
theorem isHardValid (hu : p.snapshot.UniqueKeys) {c : Candidate} (hc : c ∈ p.candidates) :
    IsHardValid p.snapshot request c.path := by
  obtain ⟨path, hpath, halong⟩ := p.along hc
  rw [halong.path_eq]
  exact p.isHardValid_of_isFoundPath hu hpath

end Passes

/-! ## Planning results -/

/-- What a function reads is left alone by the comparison and by the publication. -/
def IgnoresMarks {α : Type} (f : Candidate → α) : Prop :=
  ∀ (c : Candidate) (currentness : Currentness) (provenance : CandidateProvenance),
    f { c with currentness, provenance } = f c

namespace RuntimeState

variable {sha : List UInt8 → Sha256Digest} {capture : PlanCapture} {request : PlanningRequest}
  {compared published : RuntimeState}

theorem map_comparePlan {α : Type} {f : Candidate → α} (hf : IgnoresMarks f)
    (computed : ComputedPlan) : (compared.comparePlan capture computed).result.candidates.map f =
      computed.result.candidates.map f := by
  unfold comparePlan
  split_ifs
  · rw [List.map_map]
    exact List.map_congr_left fun c _ => hf c _ c.provenance
  · rfl

theorem map_publishPlan {α : Type} {f : Candidate → α} (hf : IgnoresMarks f)
    (computed : ComputedPlan) :
    (published.publishPlan sha capture request computed).1.candidates.map f =
      computed.result.candidates.map f := by
  unfold publishPlan
  rw [List.map_map]
  exact List.map_congr_left fun c _ => hf c c.currentness _

/-- **The candidates of a result** are those of a computation, up to the marks. -/
theorem planResult_cases :
    (planResult sha capture request compared published).candidates = [] ∨
      ∃ p : Passes sha capture request, ∀ {α : Type} {f : Candidate → α}, IgnoresMarks f →
        (planResult sha capture request compared published).candidates.map f =
          p.candidates.map f := by
  unfold planResult
  cases h : computePlan sha capture request with
  | error result => exact Or.inl (computePlan_eq_error h).1.candidates
  | ok computed =>
    obtain ⟨p, rfl⟩ := computePlan_eq_ok h
    exact Or.inr ⟨p, fun hf => (map_publishPlan hf _).trans (map_comparePlan hf _)⟩

/-- The comparison and the publication leave the primary failure. -/
theorem planResult_primaryFailure {computed : ComputedPlan}
    (h : computePlan sha capture request = .ok computed) :
    (planResult sha capture request compared published).primaryFailure =
      computed.result.primaryFailure := by
  unfold planResult
  rw [h]
  change (compared.comparePlan capture computed).result.primaryFailure = _
  unfold comparePlan
  split_ifs
  · rfl
  · rfl

/-- **Hard constraints**: every candidate of a planning result respects them, and the candidates
have different paths and are ranked. -/
theorem planResult_isHardValid {snapshot : FabricSnapshot} (hu : snapshot.UniqueKeys)
    (hcapture : capture.snapshot = some snapshot) :
    (∀ c ∈ (planResult sha capture request compared published).candidates,
        IsHardValid snapshot request c.path) ∧
      ((planResult sha capture request compared published).candidates.map (·.path)).Nodup ∧
      IsRanking (planResult sha capture request compared published).candidates := by
  rcases @planResult_cases sha capture request compared published with hnone | ⟨p, hmap⟩
  · rw [hnone]
    exact ⟨by simp, List.nodup_nil, ⟨rfl, List.Pairwise.nil⟩⟩
  obtain rfl := Option.some.inj (p.snapshot_eq.symm.trans hcapture)
  have hpaths := hmap (f := fun c => c.path) fun _ _ _ => rfl
  have hcores := hmap (f := Candidate.core) fun _ _ _ => rfl
  have hranks := hmap (f := fun c => c.rank.value) fun _ _ _ => rfl
  have hlen := congrArg List.length hpaths
  rw [List.length_map, List.length_map] at hlen
  refine ⟨fun c hc => ?_, hpaths ▸ p.nodup_paths, ?_, ?_⟩
  · obtain ⟨d, hd, heq⟩ := List.mem_map.mp (hpaths ▸ List.mem_map_of_mem hc)
    exact heq ▸ p.isHardValid hu hd
  · rw [hranks, hlen]
    exact p.isRanking.ranks
  · exact increasing_of_core_sublist p.isRanking.increasing (hcores ▸ List.Sublist.refl _)

end RuntimeState

/-! ### Two parallel links -/

/-- What a call to a new runtime over a snapshot captures. -/
def captureOver (snapshot : FabricSnapshot) : PlanCapture :=
  ((runtimeOver snapshot).capturePlan fun _ _ _ => .notRequested).1

/-- A request for a path of one hop that does not visit a third node. -/
def directPath : PlanningRequest :=
  { PlanningRequest.between 1 2 with
    constraints :=
      { id := .tagged 0 1
        forbiddenNodes := [.tagged 0 3]
        maxHops := some (.ofNat 1) } }

theorem planResult_isHardValid_parallelLinks :
    (RuntimeState.planResult constantHash (captureOver parallelLinks) directPath
        (runtimeOver parallelLinks) (runtimeOver parallelLinks)).candidates.length = 1 ∧
      ∀ c ∈ (RuntimeState.planResult constantHash (captureOver parallelLinks) directPath
        (runtimeOver parallelLinks) (runtimeOver parallelLinks)).candidates,
          IsHardValid parallelLinks directPath c.path :=
  ⟨by decide +kernel, (RuntimeState.planResult_isHardValid uniqueKeys_parallelLinks rfl).1⟩

end PathPlanner
