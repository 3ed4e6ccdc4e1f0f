import PathPlanner.View.Rows

/-!
# The eligible subgraph

What a planning view should contain, stated from the published records: the nodes that no hard
constraint excludes, and the edges between them that are on the requested layer, operable, capable,
compliant and of a representable cost. `BuildPlanningView` computes exactly this subgraph.

## Main definitions

* `Meets`, `DomainCompliant`, `LinkStateIs`, `PortStateIs`: facts about the published records
* `EligibleNode`, `EligibleEdge`: what belongs to the view
* `IsEligibleSubgraph`: a view that holds the eligible nodes and edges and nothing else

## Main results

* `evaluateNode_eq_none_iff`, `evaluateEdge_eligible_iff`: the verdicts decide eligibility
* `buildPlanningView_isEligibleSubgraph`: a view that is built is the eligible subgraph
* `IsEligibleSubgraph.eligible`: the edge behind an entry is eligible
-/

namespace PathPlanner

open SortedList

/-! ## Eligibility -/

section Eligibility

variable (snapshot : FabricSnapshot) (request : PlanningRequest)

/-- A capability requirement is met by an explicit binding of the subject. -/
def Meets (subject : SubjectKey) (requirement : CapabilityRequirement) : Prop :=
  ∃ b ∈ snapshot.capabilities.bindings, b.subject = subject ∧
    b.capability = requirement.capability ∧ requirement.satisfiedBy b.value = true

/-- Some failure domain lists the subject as a member. -/
def HasDomain (subject : SubjectKey) : Prop :=
  ∃ d ∈ snapshot.failureDomains.domains, subject ∈ d.members

/-- No failure domain of the subject is forbidden, by identity or by risk class. -/
def DomainPermitted (subject : SubjectKey) : Prop :=
  ∀ d ∈ snapshot.failureDomains.domains, subject ∈ d.members →
    d.domain ∉ request.constraints.forbiddenFailureDomains ∧
      d.riskClass ∉ request.constraints.forbiddenFailureDomainClasses

/-- The failure-domain constraints hold of the subject: its domains are permitted, and where unknown
membership fails closed, its membership is known or no domain is constrained. -/
structure DomainCompliant (subject : SubjectKey) : Prop where
  permitted : DomainPermitted snapshot request subject
  known : request.constraints.failClosedOnUnknownDomains = true →
    request.constraints.forbiddenFailureDomains ≠ [] ∨
      request.constraints.forbiddenFailureDomainClasses ≠ [] →
    HasDomain snapshot subject ∨ snapshot.failureDomains.membershipComplete = true

/-- The published state of a link; `UNKNOWN` when nothing is published. -/
def LinkStateIs (link : LinkId) (state : LinkState) : Prop :=
  (∃ r ∈ snapshot.linkStates.records, r.link = link ∧ r.state = state) ∨
    (state = .unknown ∧ ∀ r ∈ snapshot.linkStates.records, r.link ≠ link)

/-- The published state of a port; `UNKNOWN` when nothing is published. -/
def PortStateIs (port : PortId) (state : PortState) : Prop :=
  (∃ r ∈ snapshot.portStates.records, r.port = port ∧ r.state = state) ∨
    (state = .unknown ∧ ∀ r ∈ snapshot.portStates.records, r.port ≠ port)

instance (link : LinkId) (state : LinkState) : Decidable (LinkStateIs snapshot link state) :=
  inferInstanceAs (Decidable (_ ∨ _))

/-- The link states the policy and the mode accept. -/
def linkStateEligible : LinkState → Prop
  | .up => True
  | .down | .faulted | .retired => False
  | .revalidationRequired => request.mode = .diagnosticNonCurrent
  | .unknown => request.policy.requireOperationalProof = false ∨ request.mode = .diagnosticNonCurrent
  | .degraded => request.policy.allowDegradedLinks = true

/-- The port states the policy and the mode accept. -/
def portStateEligible : PortState → Prop
  | .up => True
  | .adminDisabled | .retired | .superseded => False
  | .draining => request.policy.allowDrainingPorts = true ∨ request.mode = .diagnosticNonCurrent
  | .maintenance =>
    request.policy.allowMaintenancePorts = true ∨ request.mode = .diagnosticNonCurrent
  | .revalidationRequired => request.mode = .diagnosticNonCurrent
  | .unknown => request.policy.requireOperationalProof = false ∨ request.mode = .diagnosticNonCurrent

/-- A node that no hard constraint excludes. -/
structure EligibleNode (node : NodeRecord) : Prop where
  permitted : node.id ∉ request.constraints.forbiddenNodes
  capable : ∀ r ∈ request.constraints.requiredCapabilities, r.scope = .everyNode →
    Meets snapshot (.forNode node.id) r
  compliant : DomainCompliant snapshot request (.forNode node.id)

/-- An edge that leaves the locality scope of the policy. -/
def OutsideLocality (edge : EdgeRecord) : Prop :=
  request.policy.localityScope ≠ [] ∧ edge.target ∉ request.policy.localityScope

instance (edge : EdgeRecord) : Decidable (OutsideLocality request edge) :=
  inferInstanceAs (Decidable (_ ∧ _))

/-- The static cost of an edge with the penalties that apply. -/
def exactTraversalCost (edge : EdgeRecord) : ℕ :=
  edge.staticCost.value +
    (if LinkStateIs snapshot edge.id .degraded then request.policy.costModel.degradedPenalty.value
      else 0) +
    (if OutsideLocality request edge then request.policy.costModel.localityPenalty.value else 0)

/-- An edge in an eligible state, with what it must provide and a cost that is representable. -/
structure OperableEdge (edge : EdgeRecord) : Prop where
  linkState : ∃ state, LinkStateIs snapshot edge.id state ∧ linkStateEligible request state
  portStates : ∀ port ∈ [edge.fromPort, edge.toPort],
    ∃ state, PortStateIs snapshot port state ∧ portStateEligible request state
  linkCapable : ∀ r ∈ request.constraints.requiredCapabilities, r.scope = .everyLink →
    Meets snapshot (.forLink edge.id) r
  portsCapable : ∀ r ∈ request.constraints.requiredCapabilities, r.scope = .everyPort →
    Meets snapshot (.forPort edge.fromPort) r ∧ Meets snapshot (.forPort edge.toPort) r
  compliant : ∀ subject ∈ [SubjectKey.forLink edge.id, .forPort edge.fromPort, .forPort edge.toPort],
    DomainCompliant snapshot request subject
  cost_lt : exactTraversalCost snapshot request edge < 2 ^ 64

/-- An edge that belongs to the view. -/
structure EligibleEdge (edge : EdgeRecord) : Prop extends OperableEdge snapshot request edge where
  layer : edge.layer = request.constraints.layer
  linkPermitted : edge.id ∉ request.constraints.forbiddenLinks
  portsPermitted : ∀ port ∈ [edge.fromPort, edge.toPort], port ∉ request.constraints.forbiddenPorts
  nodes : ∀ id ∈ [edge.source, edge.target], ∃ n ∈ snapshot.nodes, n.id = id ∧
    EligibleNode snapshot request n

end Eligibility

/-! ## The checks decide eligibility -/

section Checks

variable {snapshot : FabricSnapshot} {request : PlanningRequest} {limits : ResourceLimits}

theorem capabilityFailure_eq_none_iff (hu : snapshot.UniqueKeys) {subject : SubjectKey}
    {requirement : CapabilityRequirement} :
    capabilityFailure (viewSettings snapshot request limits) subject requirement = none ↔
      Meets snapshot subject requirement := by
  unfold capabilityFailure Meets
  rw [show (viewSettings snapshot request limits).snapshot = snapshot from rfl]
  cases hl : snapshot.capabilities.lookup subject requirement.capability with
  | none =>
    refine iff_of_false (by simp) ?_
    rintro ⟨b, hb, hs, hc, -⟩
    rw [(CapabilityView.lookup_eq_some_iff hu.bindings).mpr ⟨b, hb, hs, hc, rfl⟩] at hl
    cases hl
  | some value =>
    obtain ⟨b, hb, hs, hc, rfl⟩ := CapabilityView.exists_of_lookup hl
    simp only [ite_eq_left_iff, reduceCtorEq, imp_false, not_not]
    refine ⟨fun h => ⟨b, hb, hs, hc, h⟩, ?_⟩
    rintro ⟨b', hb', hs', hc', h⟩
    rw [(CapabilityView.lookup_eq_some_iff hu.bindings).mpr ⟨b', hb', hs', hc', rfl⟩] at hl
    exact Option.some.inj hl ▸ h

theorem domainFailure_eq_none_iff (hu : snapshot.UniqueKeys) {d : FailureDomainRecord}
    (hd : d ∈ snapshot.failureDomains.domains) :
    domainFailure (viewSettings snapshot request limits) d.domain = none ↔
      d.domain ∉ request.constraints.forbiddenFailureDomains ∧
        d.riskClass ∉ request.constraints.forbiddenFailureDomainClasses := by
  have hfind : snapshot.failureDomains.findDomain d.domain = some d :=
    (FailureDomainView.findDomain_eq_some_iff hu.domains).mpr ⟨hd, rfl⟩
  simp only [domainFailure, viewSettings, hfind, binarySearch_sortBy]
  by_cases hf : d.domain ∈ request.constraints.forbiddenFailureDomains
  · simp [hf]
  · by_cases hc : d.riskClass ∈ request.constraints.forbiddenFailureDomainClasses
    · have hne : (sortBy id request.constraints.forbiddenFailureDomainClasses).isEmpty = false := by
        rw [List.isEmpty_eq_false_iff_exists_mem]
        exact ⟨_, (mem_sortBy _ _).mpr hc⟩
      simp [hf, hc, hne]
    · simp [hf, hc]

/-- Whether any failure-domain constraint is active. -/
theorem hasDomainConstraints_iff :
    (!(viewSettings snapshot request limits).forbiddenFailureDomains.isEmpty ||
      !(viewSettings snapshot request limits).forbiddenFailureDomainClasses.isEmpty) = true ↔
    request.constraints.forbiddenFailureDomains ≠ [] ∨
      request.constraints.forbiddenFailureDomainClasses ≠ [] := by
  simp only [viewSettings, List.isEmpty_iff_length_eq_zero, Bool.or_eq_true, Bool.not_eq_true',
    ← Bool.not_eq_true, length_sortBy, List.length_eq_zero_iff, ne_eq]

theorem failureDomainFailure_eq_none_iff (hu : snapshot.UniqueKeys) {subject : SubjectKey} :
    failureDomainFailure (viewSettings snapshot request limits) subject
        request.constraints.failClosedOnUnknownDomains = none ↔
      DomainCompliant snapshot request subject := by
  have hknown : (snapshot.failureDomains.membershipOf subject).known = true ↔
      HasDomain snapshot subject ∨ snapshot.failureDomains.membershipComplete = true :=
    FailureDomainView.membershipOf_known_iff
  unfold failureDomainFailure
  change (if !(snapshot.failureDomains.membershipOf subject).known then _ else
    (snapshot.failureDomains.membershipOf subject).domains.findSome? _) = none ↔ _
  cases hk : (snapshot.failureDomains.membershipOf subject).known with
  | false =>
    rw [hk] at hknown
    have hunknown : ¬ (HasDomain snapshot subject ∨
        snapshot.failureDomains.membershipComplete = true) := fun h => by
      have := hknown.mpr h
      cases this
    simp only [Bool.not_false, if_true, ite_eq_right_iff, reduceCtorEq, imp_false,
      Bool.and_eq_true, hasDomainConstraints_iff, not_and]
    constructor
    · intro h
      refine ⟨fun d hd hm => absurd (Or.inl ⟨d, hd, hm⟩) hunknown, fun hc hn => ?_⟩
      exact absurd hn (h hc)
    · exact fun h hc hn => hunknown (h.known hc hn)
  | true =>
    simp only [Bool.not_true, Bool.false_eq_true, if_false, List.findSome?_eq_none_iff]
    constructor
    · refine fun h => ⟨fun d hd hm => ?_, fun _ _ => hknown.mp hk⟩
      exact (domainFailure_eq_none_iff hu hd).mp
        (h d.domain (FailureDomainView.mem_membershipOf.mpr ⟨d, hd, rfl, hm⟩))
    · intro h x hx
      obtain ⟨d, hd, rfl, hm⟩ := FailureDomainView.mem_membershipOf.mp hx
      exact (domainFailure_eq_none_iff hu hd).mpr (h.permitted d hd hm)

/-- **The verdict on a node** decides its eligibility. -/
theorem evaluateNode_eq_none_iff (hu : snapshot.UniqueKeys) {node : NodeRecord} :
    evaluateNode (viewSettings snapshot request limits) request
        (sortBy id request.constraints.forbiddenNodes) node = none ↔
      EligibleNode snapshot request node := by
  unfold evaluateNode
  simp only [binarySearch_sortBy]
  split_ifs with hf
  · exact iff_of_false (by simp) fun h => h.permitted hf
  · simp only [Option.or_eq_none_iff, List.findSome?_eq_none_iff, Option.map_eq_none_iff,
      failureDomainFailure_eq_none_iff hu, ite_eq_left_iff, ne_eq, not_not,
      capabilityFailure_eq_none_iff hu]
    exact ⟨fun h => ⟨hf, h.1, h.2⟩, fun h => ⟨h.capable, h.compliant⟩⟩

theorem linkStateFailure_eq_none_iff {state : LinkState} :
    linkStateFailure (viewSettings snapshot request limits) state = none ↔
      linkStateEligible request state := by
  cases state with
  | degraded =>
    simp only [linkStateFailure, linkStateEligible, viewSettings]
    split_ifs with h <;> simp [h]
  | _ => simp [linkStateFailure, linkStateEligible, viewSettings, ← Bool.not_eq_true, imp_iff_not_or]

theorem portStateFailure_eq_none_iff {state : PortState} :
    portStateFailure (viewSettings snapshot request limits) state = none ↔
      portStateEligible request state := by
  cases state <;>
    simp [portStateFailure, portStateEligible, viewSettings, ← Bool.not_eq_true, imp_iff_not_or]

/-- With one record per link, exactly one state is published. -/
theorem exists_linkStateIs_iff (hu : snapshot.UniqueKeys) {link : LinkId} {P : LinkState → Prop} :
    (∃ state, LinkStateIs snapshot link state ∧ P state) ↔
      P (snapshot.linkStates.stateOf link) := by
  simp only [LinkStateIs, ← LinkStateView.stateOf_eq_iff hu.links]
  exact ⟨fun ⟨_, he, h⟩ => he ▸ h, fun h => ⟨_, rfl, h⟩⟩

theorem exists_portStateIs_iff (hu : snapshot.UniqueKeys) {port : PortId} {P : PortState → Prop} :
    (∃ state, PortStateIs snapshot port state ∧ P state) ↔
      P (snapshot.portStates.stateOf port) := by
  simp only [PortStateIs, ← PortStateView.stateOf_eq_iff hu.ports]
  exact ⟨fun ⟨_, he, h⟩ => he ▸ h, fun h => ⟨_, rfl, h⟩⟩

theorem portsFailure_eq_none_iff (hu : snapshot.UniqueKeys) {edge : EdgeRecord} :
    portsFailure (viewSettings snapshot request limits) edge = none ↔
      ∀ port ∈ [edge.fromPort, edge.toPort],
        ∃ state, PortStateIs snapshot port state ∧ portStateEligible request state := by
  simp only [portsFailure, List.findSome?_eq_none_iff, Option.map_eq_none_iff,
    portStateFailure_eq_none_iff, exists_portStateIs_iff hu]
  rfl

theorem edgeCapabilityFailure_eq_none_iff (hu : snapshot.UniqueKeys) {edge : EdgeRecord}
    {r : CapabilityRequirement} :
    edgeCapabilityFailure (viewSettings snapshot request limits) edge r = none ↔
      (r.scope = .everyLink → Meets snapshot (.forLink edge.id) r) ∧
      (r.scope = .everyPort →
        Meets snapshot (.forPort edge.fromPort) r ∧ Meets snapshot (.forPort edge.toPort) r) := by
  unfold edgeCapabilityFailure
  cases hs : r.scope <;>
    simp [Option.or_eq_none_iff, capabilityFailure_eq_none_iff hu]

theorem edgeDomainFailure_eq_none_iff (hu : snapshot.UniqueKeys) {edge : EdgeRecord} :
    edgeDomainFailure (viewSettings snapshot request limits) edge
        request.constraints.failClosedOnUnknownDomains = none ↔
      ∀ subject ∈ [SubjectKey.forLink edge.id, .forPort edge.fromPort, .forPort edge.toPort],
        DomainCompliant snapshot request subject := by
  simp only [edgeDomainFailure, Option.map_eq_none_iff, List.findSome?_eq_none_iff,
    failureDomainFailure_eq_none_iff hu]

theorem outsideLocality_iff {edge : EdgeRecord} :
    (!(viewSettings snapshot request limits).localityScope.isEmpty &&
      !binarySearch (viewSettings snapshot request limits).localityScope edge.target) =
        decide (OutsideLocality request edge) := by
  rw [Bool.eq_iff_iff, decide_eq_true_eq]
  simp only [viewSettings, OutsideLocality, List.isEmpty_iff_length_eq_zero, Bool.and_eq_true,
    Bool.not_eq_true', ← Bool.not_eq_true, length_sortBy, List.length_eq_zero_iff,
    binarySearch_sortBy, ne_eq]

/-- The traversal cost is the exact one, when that is representable. -/
theorem traversalCost_eq_some_iff (hu : snapshot.UniqueKeys) {edge : EdgeRecord} {cost : CostValue}
    {outside : Bool} :
    traversalCost (viewSettings snapshot request limits) edge
        (decide (snapshot.linkStates.stateOf edge.id = .degraded)) = some (cost, outside) ↔
      cost.value = exactTraversalCost snapshot request edge ∧
        outside = decide (OutsideLocality request edge) := by
  have hd : LinkStateIs snapshot edge.id .degraded ↔
      snapshot.linkStates.stateOf edge.id = .degraded := (LinkStateView.stateOf_eq_iff hu.links).symm
  unfold traversalCost exactTraversalCost
  rw [outsideLocality_iff, viewSettings_costModel]
  simp only [hd, Option.bind_eq_some_iff, Option.map_eq_some_iff, penalize_eq_some_iff,
    StaticCost.value_toCost, decide_eq_true_eq, Prod.mk.injEq]
  constructor
  · rintro ⟨partial_, h₁, total, h₂, rfl, rfl⟩
    exact ⟨by rw [← h₂, ← h₁], rfl⟩
  · rintro ⟨hc, rfl⟩
    have hlt := cost.lt
    exact ⟨⟨_, by omega⟩, rfl, cost, hc.symm, rfl, rfl⟩

/-- The entry of an edge between the view nodes `i` and `j`. -/
structure IsEntryOf (snapshot : FabricSnapshot) (request : PlanningRequest) (i j index : ℕ)
    (edge : EdgeRecord) (pending : PendingAdjacency) : Prop where
  source : pending.source = i
  target : pending.entry.target = j
  position : pending.entry.edge = index
  degraded : pending.entry.degraded = true ↔ LinkStateIs snapshot edge.id .degraded
  outsideLocality : pending.entry.outsideLocality = true ↔ OutsideLocality request edge
  cost : pending.entry.traversalCost.value = exactTraversalCost snapshot request edge

/-- **The checks from the link state on** accept exactly the operable edges. -/
theorem evaluateOperation_eligible_iff (hu : snapshot.UniqueKeys) {i j index : ℕ}
    {edge : EdgeRecord} {pending : PendingAdjacency} :
    evaluateOperation (viewSettings snapshot request limits) request i j index edge =
        .eligible pending ↔
      OperableEdge snapshot request edge ∧ IsEntryOf snapshot request i j index edge pending := by
  have hd : LinkStateIs snapshot edge.id .degraded ↔
      snapshot.linkStates.stateOf edge.id = .degraded := (LinkStateView.stateOf_eq_iff hu.links).symm
  rw [evaluateOperation_eq_eligible_iff]
  constructor
  · rintro ⟨hi, hj, hindex, hlink, hports, hcap, hdom, hdegraded, hcost⟩
    have hcap' := fun r hr => (edgeCapabilityFailure_eq_none_iff hu).mp (hcap r hr)
    rw [hdegraded] at hcost
    obtain ⟨htotal, hout⟩ := (traversalCost_eq_some_iff hu).mp hcost
    refine ⟨⟨(exists_linkStateIs_iff hu).mpr (linkStateFailure_eq_none_iff.mp hlink),
      (portsFailure_eq_none_iff hu).mp hports, fun r hr => (hcap' r hr).1,
      fun r hr => (hcap' r hr).2, (edgeDomainFailure_eq_none_iff hu).mp hdom,
      htotal ▸ pending.entry.traversalCost.lt⟩, hi, hj, hindex, ?_, ?_, htotal⟩
    · rw [hdegraded]
      exact decide_eq_true_iff.trans hd.symm
    · rw [hout]
      exact decide_eq_true_iff
  · rintro ⟨⟨hlink, hports, hcapl, hcapp, hdom, -⟩, hi, hj, hindex, hdeg, hout, hc⟩
    have hdegraded : pending.entry.degraded =
        decide (snapshot.linkStates.stateOf edge.id = .degraded) :=
      Bool.eq_iff_iff.mpr (hdeg.trans (hd.trans decide_eq_true_iff.symm))
    refine ⟨hi, hj, hindex, linkStateFailure_eq_none_iff.mpr ((exists_linkStateIs_iff hu).mp hlink),
      (portsFailure_eq_none_iff hu).mpr hports,
      fun r hr => (edgeCapabilityFailure_eq_none_iff hu).mpr ⟨hcapl r hr, hcapp r hr⟩,
      (edgeDomainFailure_eq_none_iff hu).mpr hdom, hdegraded, ?_⟩
    rw [hdegraded]
    exact (traversalCost_eq_some_iff hu).mpr
      ⟨hc, Bool.eq_iff_iff.mpr (hout.trans decide_eq_true_iff.symm)⟩

end Checks

/-! ## The view that is built -/

section Built

variable {snapshot : FabricSnapshot} {request : PlanningRequest} {limits : ResourceLimits}
  {scan : NodeScan}

/-- An eligible node of an identity has a view index. -/
theorem NodeScan.NumbersEligible.exists_viewIndex (hu : snapshot.UniqueKeys)
    (h : scan.NumbersEligible snapshot request limits) {id : NodeId}
    (hn : ∃ n ∈ snapshot.nodes, n.id = id ∧ EligibleNode snapshot request n) :
    ∃ i, viewIndexOf snapshot scan.snapshotToViewNode id = some i := by
  obtain ⟨n, hm, rfl, he⟩ := hn
  obtain ⟨i, hi, rfl⟩ := h.exists_nodeAt hm ((evaluateNode_eq_none_iff hu).mpr he)
  exact ⟨i, h.viewIndexOf_eq_some_iff.mpr ⟨hi, rfl⟩⟩

theorem NodeScan.NumbersEligible.exists_eligible (hu : snapshot.UniqueKeys)
    (h : scan.NumbersEligible snapshot request limits) {i : ℕ}
    (hi : i < scan.viewToSnapshotNode.length) :
    scan.nodeAt snapshot i ∈ snapshot.nodes ∧ EligibleNode snapshot request (scan.nodeAt snapshot i) :=
  ⟨List.mem_of_getElem? (h.nodeAt_spec hi).1,
    (evaluateNode_eq_none_iff hu).mp (h.nodeAt_spec hi).2⟩

/-- **The verdict on an edge** decides its eligibility, and the entry is that between the view nodes
of its ends. -/
theorem evaluateEdge_eligible_iff (hu : snapshot.UniqueKeys)
    (h : scan.NumbersEligible snapshot request limits) {index : ℕ} {edge : EdgeRecord}
    {pending : PendingAdjacency} :
    evaluateEdge (viewSettings snapshot request limits) request scan index edge =
        .eligible pending ↔
      EligibleEdge snapshot request edge ∧ ∃ i j,
        viewIndexOf snapshot scan.snapshotToViewNode edge.source = some i ∧
        viewIndexOf snapshot scan.snapshotToViewNode edge.target = some j ∧
        IsEntryOf snapshot request i j index edge pending := by
  have hnode : ∀ {id k}, viewIndexOf snapshot scan.snapshotToViewNode id = some k →
      ∃ n ∈ snapshot.nodes, n.id = id ∧ EligibleNode snapshot request n := fun hk => by
    obtain ⟨hlt, hid⟩ := h.viewIndexOf_eq_some_iff.mp hk
    obtain ⟨hm, he⟩ := h.exists_eligible hu hlt
    exact ⟨_, hm, hid, he⟩
  rw [evaluateEdge_eq_eligible_iff]
  constructor
  · rintro ⟨hlayer, hlink, hports, hs, ht, hchecks⟩
    obtain ⟨hop, hentry⟩ := (evaluateOperation_eligible_iff hu).mp
      (evaluateOperation_eq_eligible_iff.mpr hchecks)
    exact ⟨{ hop with
      layer := hlayer
      linkPermitted := hlink
      portsPermitted := hports
      nodes := List.forall_mem_cons.mpr ⟨hnode hs, List.forall_mem_cons.mpr ⟨hnode ht, by simp⟩⟩ },
      _, _, hs, ht, hentry⟩
  · rintro ⟨he, i, j, hi, hj, hentry⟩
    obtain ⟨rfl, rfl, -⟩ := id hentry
    exact ⟨he.layer, he.linkPermitted, he.portsPermitted, hi, hj,
      evaluateOperation_eq_eligible_iff.mp
        ((evaluateOperation_eligible_iff hu).mpr ⟨he.toOperableEdge, hentry⟩)⟩

/-- A view that holds the eligible nodes and edges of a snapshot, each once, in sorted compressed
rows with the right targets, flags and costs. -/
structure IsEligibleSubgraph (snapshot : FabricSnapshot) (request : PlanningRequest)
    (limits : ResourceLimits) (view : PlanningView) : Prop where
  settings : view.toViewSettings = viewSettings snapshot request limits
  nodeCount_le : view.nodeCount ≤ limits.maxNodes.toNat
  node_iff : ∀ n ∈ snapshot.nodes,
    (∃ i < view.nodeCount, view.nodeAt i = n) ↔ EligibleNode snapshot request n
  node_mem : ∀ i < view.nodeCount, view.nodeAt i ∈ snapshot.nodes
  node_injective : ∀ i < view.nodeCount, ∀ j < view.nodeCount,
    (view.nodeAt i).id = (view.nodeAt j).id → i = j
  viewIndex_iff : ∀ id i, view.viewIndex id = some i ↔ i < view.nodeCount ∧ (view.nodeAt i).id = id
  edge_iff : ∀ e ∈ snapshot.edges,
    (∃ k < view.adjacency.length, view.edgeAt (view.adjacencyAt k).edge = e) ↔
      EligibleEdge snapshot request e
  edge_lt : ∀ k < view.adjacency.length, (view.adjacencyAt k).edge < snapshot.edges.length
  edge_injective : ∀ k < view.adjacency.length, ∀ l < view.adjacency.length,
    (view.adjacencyAt k).edge = (view.adjacencyAt l).edge → k = l
  offsets_length : view.offsets.length = view.nodeCount + 1
  offsets_zero : view.offsets.getD 0 0 = 0
  offsets_le : ∀ u < view.nodeCount, view.adjacencyBegin u ≤ view.adjacencyEnd u
  offsets_last : view.offsets.getD view.nodeCount 0 = view.adjacency.length
  mem_row_iff : ∀ u < view.nodeCount, ∀ k < view.adjacency.length, k ∈ view.adjacencyRange u ↔
    (view.nodeAt u).id = (view.edgeAt (view.adjacencyAt k).edge).source
  rows_sorted : ∀ u < view.nodeCount, (view.adjacencyRange u).Pairwise fun k l =>
    toLex ((view.nodeAt (view.adjacencyAt k).target).id, view.linkAt k) <
      toLex ((view.nodeAt (view.adjacencyAt l).target).id, view.linkAt l)
  target : ∀ k < view.adjacency.length, (view.adjacencyAt k).target < view.nodeCount ∧
    (view.nodeAt (view.adjacencyAt k).target).id = (view.edgeAt (view.adjacencyAt k).edge).target
  degraded : ∀ k < view.adjacency.length, (view.adjacencyAt k).degraded = true ↔
    LinkStateIs snapshot (view.edgeAt (view.adjacencyAt k).edge).id .degraded
  outsideLocality : ∀ k < view.adjacency.length, (view.adjacencyAt k).outsideLocality = true ↔
    OutsideLocality request (view.edgeAt (view.adjacencyAt k).edge)
  cost : ∀ k < view.adjacency.length, (view.adjacencyAt k).traversalCost.value =
    exactTraversalCost snapshot request (view.edgeAt (view.adjacencyAt k).edge)

/-- The edge behind an entry is an eligible edge. -/
theorem IsEligibleSubgraph.eligible {view : PlanningView}
    (hv : IsEligibleSubgraph snapshot request limits view) {k : ℕ} (hk : k < view.adjacency.length)
    (hm : view.edgeAt (view.adjacencyAt k).edge ∈ snapshot.edges) :
    EligibleEdge snapshot request (view.edgeAt (view.adjacencyAt k).edge) :=
  (hv.edge_iff _ hm).mp ⟨k, hk, rfl⟩

/-- An entry of the view with the edge it stands for. -/
structure NodeScan.Stands (scan : NodeScan) (snapshot : FabricSnapshot) (request : PlanningRequest)
    (edge : EdgeRecord) (pending : PendingAdjacency) : Prop where
  position : snapshot.edges[pending.entry.edge]? = some edge
  eligible : EligibleEdge snapshot request edge
  source : viewIndexOf snapshot scan.snapshotToViewNode edge.source = some pending.source
  target : viewIndexOf snapshot scan.snapshotToViewNode edge.target = some pending.entry.target
  entry : IsEntryOf snapshot request pending.source pending.entry.target pending.entry.edge edge
    pending

theorem NodeScan.NumbersEligible.mem_pending_iff (hu : snapshot.UniqueKeys)
    (h : scan.NumbersEligible snapshot request limits) {p : PendingAdjacency} :
    p ∈ scan.pending snapshot request limits ↔ ∃ edge, scan.Stands snapshot request edge p := by
  rw [NodeScan.pending, mem_sortBy, mem_scanEdges_iff]
  simp only [evaluateEdge_eligible_iff hu h]
  constructor
  · rintro ⟨index, edge, he, hel, i, j, hi, hj, hentry⟩
    obtain ⟨rfl, rfl, rfl, -⟩ := id hentry
    exact ⟨edge, he, hel, hi, hj, hentry⟩
  · rintro ⟨edge, hs⟩
    exact ⟨_, edge, hs.position, hs.eligible, _, _, hs.source, hs.target, hs.entry⟩

/-- Every eligible edge has an entry. -/
theorem NodeScan.NumbersEligible.exists_stands (hu : snapshot.UniqueKeys)
    (h : scan.NumbersEligible snapshot request limits) {edge : EdgeRecord}
    (hm : edge ∈ snapshot.edges) (he : EligibleEdge snapshot request edge) :
    ∃ p ∈ scan.pending snapshot request limits, scan.Stands snapshot request edge p := by
  obtain ⟨index, hindex⟩ := List.mem_iff_getElem?.mp hm
  obtain ⟨i, hi⟩ := h.exists_viewIndex hu (he.nodes edge.source (by simp))
  obtain ⟨j, hj⟩ := h.exists_viewIndex hu (he.nodes edge.target (by simp))
  let p : PendingAdjacency := ⟨i,
    { target := j
      edge := index
      traversalCost := ⟨_, he.cost_lt⟩
      degraded := decide (LinkStateIs snapshot edge.id .degraded)
      outsideLocality := decide (OutsideLocality request edge) }⟩
  have hentry : IsEntryOf snapshot request i j index edge p :=
    ⟨rfl, rfl, rfl, decide_eq_true_iff, decide_eq_true_iff, rfl⟩
  have hs : scan.Stands snapshot request edge p := ⟨hindex, he, hi, hj, hentry⟩
  exact ⟨p, (h.mem_pending_iff hu).mpr ⟨edge, hs⟩, hs⟩

/-- The entry at a position, with the edge it stands for. -/
theorem NodeScan.NumbersEligible.exists_stands_at (hu : snapshot.UniqueKeys)
    (h : scan.NumbersEligible snapshot request limits) {k : ℕ}
    (hk : k < (scan.view snapshot request limits).adjacency.length) :
    ∃ p, (scan.pending snapshot request limits)[k]? = some p ∧
      (scan.view snapshot request limits).adjacencyAt k = p.entry ∧
      scan.Stands snapshot request
        ((scan.view snapshot request limits).edgeAt
          ((scan.view snapshot request limits).adjacencyAt k).edge) p := by
  obtain ⟨p, hp, he, hposition, -⟩ := NodeScan.exists_keeps_at hk
  obtain ⟨edge, hs⟩ := (h.mem_pending_iff hu).mp (List.mem_of_getElem? hp)
  obtain rfl := Option.some.inj (hs.position.symm.trans hposition)
  exact ⟨p, hp, he, hs⟩

/-- **The assembled view is the eligible subgraph.** -/
theorem NodeScan.NumbersEligible.isEligibleSubgraph (hu : snapshot.UniqueKeys)
    (h : scan.NumbersEligible snapshot request limits)
    (hcount : scan.viewToSnapshotNode.length ≤ limits.maxNodes.toNat) :
    IsEligibleSubgraph snapshot request limits (scan.view snapshot request limits) :=
  have hv := h.isCheckedView hcount
  { settings := hv.settings
    nodeCount_le := hv.nodeCount_le
    node_iff := fun n hn => by
      constructor
      · rintro ⟨i, hi, rfl⟩
        exact (h.exists_eligible hu hi).2
      · exact fun he => h.exists_nodeAt hn ((evaluateNode_eq_none_iff hu).mpr he)
    node_mem := hv.node_mem
    node_injective := hv.node_injective
    viewIndex_iff := hv.viewIndex_iff
    edge_iff := fun e he => by
      constructor
      · rintro ⟨k, hk, rfl⟩
        obtain ⟨p, -, -, hs⟩ := h.exists_stands_at hu hk
        exact hs.eligible
      · intro hel
        obtain ⟨p, hp, hs⟩ := h.exists_stands hu he hel
        obtain ⟨k, hk, rfl⟩ := List.mem_iff_getElem.mp hp
        have hk' : k < (scan.view snapshot request limits).adjacency.length := by
          rw [NodeScan.view_adjacency, List.length_map]
          exact hk
        obtain ⟨q, hq, -, hs'⟩ := h.exists_stands_at hu hk'
        obtain rfl := Option.some.inj ((List.getElem?_eq_getElem hk).symm.trans hq)
        exact ⟨k, hk', Option.some.inj (hs'.position.symm.trans hs.position)⟩
    edge_lt := hv.edge_lt
    edge_injective := hv.edge_injective
    offsets_length := hv.offsets_length
    offsets_zero := hv.offsets_zero
    offsets_le := hv.offsets_le
    offsets_last := hv.offsets_last
    mem_row_iff := hv.mem_row_iff
    rows_sorted := hv.rows_sorted
    target := hv.target
    degraded := fun k hk => by
      obtain ⟨p, -, he, hs⟩ := h.exists_stands_at hu hk
      rw [he] at hs ⊢
      exact hs.entry.degraded
    outsideLocality := fun k hk => by
      obtain ⟨p, -, he, hs⟩ := h.exists_stands_at hu hk
      rw [he] at hs ⊢
      exact hs.entry.outsideLocality
    cost := fun k hk => by
      obtain ⟨p, -, he, hs⟩ := h.exists_stands_at hu hk
      rw [he] at hs ⊢
      exact hs.entry.cost }

/-- A view that is built is the eligible subgraph, and the endpoints are nodes of it that meet their
capability requirements. -/
theorem buildPlanningView_spec (hu : snapshot.UniqueKeys)
    {source destination : NodeId} {built : BuiltView}
    (h : buildPlanningView snapshot request limits source destination = .ok built) :
    IsEligibleSubgraph snapshot request limits built.view ∧
      (built.sourceView < built.view.nodeCount ∧
        (built.view.nodeAt built.sourceView).id = source) ∧
      (built.destinationView < built.view.nodeCount ∧
        (built.view.nodeAt built.destinationView).id = destination) ∧
      ∀ r ∈ request.constraints.requiredCapabilities,
        (r.scope = .sourceNode → Meets snapshot (.forNode source) r) ∧
        (r.scope = .destinationNode → Meets snapshot (.forNode destination) r) := by
  obtain ⟨scan, hnum, hcount, -, hview, hs, hd, hcap⟩ := buildPlanningView_eq_ok h
  rw [hview]
  refine ⟨hnum.isEligibleSubgraph hu hcount, hnum.viewIndexOf_eq_some_iff.mp hs,
    hnum.viewIndexOf_eq_some_iff.mp hd, fun r hr => ?_⟩
  have hfail := hcap r hr
  unfold endpointCapabilityFailure at hfail
  constructor <;> intro hscope <;> rw [hscope] at hfail <;>
    exact (capabilityFailure_eq_none_iff hu).mp (Option.map_eq_none_iff.mp hfail)

/-- **A view that is built is the eligible subgraph** of the request. -/
theorem buildPlanningView_isEligibleSubgraph (hu : snapshot.UniqueKeys)
    {source destination : NodeId} {built : BuiltView}
    (h : buildPlanningView snapshot request limits source destination = .ok built) :
    IsEligibleSubgraph snapshot request limits built.view :=
  (buildPlanningView_spec hu h).1

end Built

/-! ## A view of two parallel links -/

/-- Two nodes joined by two parallel links. -/
def parallelLinks : FabricSnapshot :=
  (FabricSnapshotBuilder.ofLinks [1, 2] [(1, 2), (1, 2)]).snapshotWith (by decide +kernel)
    ⟨Vector.replicate 32 1⟩

theorem uniqueKeys_parallelLinks : parallelLinks.UniqueKeys :=
  ⟨by decide +kernel, by decide +kernel, by decide +kernel, by decide +kernel⟩

/-- Their view. -/
def parallelView : BuiltView :=
  (buildPlanningView parallelLinks (.between 1 2) {} (.tagged 0 1) (.tagged 0 2)).toOption.get
    (by decide +kernel)

theorem parallelView_eq : buildPlanningView parallelLinks (.between 1 2) {} (.tagged 0 1)
    (.tagged 0 2) = .ok parallelView := FabricSnapshotBuilder.eq_ok_get _

theorem buildPlanningView_isEligibleSubgraph_parallelView :
    IsEligibleSubgraph parallelLinks (.between 1 2) {} parallelView.view :=
  buildPlanningView_isEligibleSubgraph uniqueKeys_parallelLinks parallelView_eq

end PathPlanner
