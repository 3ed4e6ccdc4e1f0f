import PathPlanner.Library.CompressedRows
import PathPlanner.View.PlanningView

/-!
# Building a planning view

`BuildPlanningView` keeps the nodes that no hard constraint excludes, numbers them, and then keeps
the edges between them that pass the checks in a fixed order. The entries that remain are sorted and
stored in compressed rows. A request whose endpoints are excluded has no view.

## Main definitions

* `capabilityFailure`, `failureDomainFailure`: the checks of a subject
* `evaluateNode`, `evaluateEdge`: the verdicts on nodes and edges
* `scanNodes`, `scanEdges`: the loops over the snapshot
* `buildPlanningView`: the whole construction

## Main results

* `scanNodes_spec`: the view indices number the eligible nodes in the order of the snapshot
* `mem_scanEdges_iff`: the entries kept are those of the eligible edges
* `scanEdges_fst`: the scan of the edges keeps them in the order of the snapshot
* `scanEdges_countsAtMost`: a rejection is counted at most once for each edge
-/

namespace PathPlanner

open SortedList

/-! ## Checks of a subject -/

/-- `CapabilitySatisfied`: the failure, or nothing when the requirement is met by a binding. -/
def capabilityFailure (settings : ViewSettings) (subject : SubjectKey)
    (requirement : CapabilityRequirement) : Option DiagnosticCode :=
  match settings.snapshot.capabilities.lookup subject requirement.capability with
  | none => some .capabilityUnknown
  | some observed =>
    if requirement.satisfiedBy observed then none else some .capabilityInsufficient

/-- The failure of one domain of a subject. -/
def domainFailure (settings : ViewSettings) (domain : FailureDomainId) : Option DiagnosticCode :=
  if binarySearch settings.forbiddenFailureDomains domain then some .failureDomainForbidden
  else if settings.forbiddenFailureDomainClasses.isEmpty then none
  else
    match settings.snapshot.failureDomains.findDomain domain with
    | none => none
    | some record =>
      if binarySearch settings.forbiddenFailureDomainClasses record.riskClass then
        some .failureDomainClassForbidden
      else none

/-- `FailureDomainCompliant`: the failure, or nothing when the subject complies. -/
def failureDomainFailure (settings : ViewSettings) (subject : SubjectKey) (failClosed : Bool) :
    Option DiagnosticCode :=
  let hasDomainConstraints :=
    !settings.forbiddenFailureDomains.isEmpty || !settings.forbiddenFailureDomainClasses.isEmpty
  let membership := settings.snapshot.failureDomains.membershipOf subject
  if !membership.known then
    if failClosed && hasDomainConstraints then some .failureDomainUnknown else none
  else membership.domains.findSome? (domainFailure settings)

/-! ## Settings -/

/-- The settings of the view of a request. -/
def viewSettings (snapshot : FabricSnapshot) (request : PlanningRequest) (limits : ResourceLimits) :
    ViewSettings :=
  let diagnosticMode : Bool := request.mode = .diagnosticNonCurrent
  { snapshot
    limits
    layer := request.constraints.layer
    costModel := request.policy.costModel
    diagnosticMode
    requireOperationalProof := request.policy.requireOperationalProof && !diagnosticMode
    allowDegradedLinks := request.policy.allowDegradedLinks
    allowDrainingPorts := request.policy.allowDrainingPorts
    allowMaintenancePorts := request.policy.allowMaintenancePorts
    localityScope := sortBy id request.policy.localityScope
    forbiddenFailureDomains := sortBy id request.constraints.forbiddenFailureDomains
    forbiddenFailureDomainClasses := sortBy id request.constraints.forbiddenFailureDomainClasses
    failClosedOnUnknownDomains := request.constraints.failClosedOnUnknownDomains
    provisional := diagnosticMode || !request.policy.requireOperationalProof }

@[simp] theorem viewSettings_snapshot {snapshot : FabricSnapshot} {request : PlanningRequest}
    {limits : ResourceLimits} : (viewSettings snapshot request limits).snapshot = snapshot := rfl

@[simp] theorem viewSettings_costModel {snapshot : FabricSnapshot} {request : PlanningRequest}
    {limits : ResourceLimits} :
    (viewSettings snapshot request limits).costModel = request.policy.costModel := rfl

/-! ## Nodes -/

/-- `EvaluateNode`: why a node is excluded, or nothing. -/
def evaluateNode (settings : ViewSettings) (request : PlanningRequest)
    (forbiddenNodes : List NodeId) (node : NodeRecord) : Option (DiagnosticCode × String) :=
  let subject := SubjectKey.forNode node.id
  if binarySearch forbiddenNodes node.id then
    some (.forbiddenNode, "node is forbidden by the constraint set")
  else
    let capability := request.constraints.requiredCapabilities.findSome? fun requirement =>
      if requirement.scope ≠ .everyNode then none
      else (capabilityFailure settings subject requirement).map fun failure =>
        (failure, "node capability requirement not satisfied for " ++ requirement.capability.toString)
    capability.or <|
      (failureDomainFailure settings subject request.constraints.failClosedOnUnknownDomains).map
        fun failure => (failure, "node failure-domain constraint violated")

/-- The state of the loop over the nodes. -/
structure NodeScan where
  viewToSnapshotNode : List ℕ
  snapshotToViewNode : List (Option ℕ)
  rejections : RejectionLog

/-- One iteration of the loop over the nodes; the position is the number of nodes passed. -/
def scanNode (verdict : NodeRecord → Option (DiagnosticCode × String)) (scan : NodeScan)
    (node : NodeRecord) : NodeScan :=
  match verdict node with
  | some (code, detail) =>
    { scan with
      snapshotToViewNode := scan.snapshotToViewNode ++ [none]
      rejections := scan.rejections.explicit code (SubjectKey.forNode node.id) detail }
  | none =>
    { scan with
      snapshotToViewNode := scan.snapshotToViewNode ++ [some scan.viewToSnapshotNode.length]
      viewToSnapshotNode := scan.viewToSnapshotNode ++ [scan.snapshotToViewNode.length] }

/-- The loop over the nodes. -/
def scanNodes (verdict : NodeRecord → Option (DiagnosticCode × String)) (maxEntries : ℕ)
    (nodes : List NodeRecord) : NodeScan :=
  nodes.foldl (scanNode verdict) ⟨[], [], .new maxEntries⟩

/-! ## Edges -/

/-- Why a link in a state is excluded, or nothing. -/
def linkStateFailure (settings : ViewSettings) : LinkState → Option (DiagnosticCode × String)
  | .up => none
  | .degraded =>
    if settings.allowDegradedLinks then none
    else some (.linkStateDegradedDisallowed, "DEGRADED link excluded by planning policy")
  | .down => some (.linkStateDown, "link is DOWN")
  | .faulted => some (.linkStateFaulted, "link is FAULTED")
  | .retired => some (.linkStateRetired, "link is RETIRED")
  | .revalidationRequired =>
    if !settings.diagnosticMode then
      some (.linkStateRevalidationRequired, "link requires revalidation")
    else none
  | .unknown =>
    if settings.requireOperationalProof then
      some (.linkStateUnknown, "link operational state is UNKNOWN and proof is required")
    else none

/-- Why a port in a state is excluded, or nothing. -/
def portStateFailure (settings : ViewSettings) : PortState → Option (DiagnosticCode × String)
  | .up => none
  | .adminDisabled => some (.portAdminDisabled, "port is ADMIN_DISABLED")
  | .retired => some (.portRetired, "port is RETIRED")
  | .superseded => some (.portSuperseded, "port is SUPERSEDED")
  | .draining =>
    if !settings.allowDrainingPorts && !settings.diagnosticMode then
      some (.portDraining, "port is DRAINING")
    else none
  | .maintenance =>
    if !settings.allowMaintenancePorts && !settings.diagnosticMode then
      some (.portMaintenance, "port is in MAINTENANCE")
    else none
  | .revalidationRequired =>
    if !settings.diagnosticMode then some (.portRevalidationRequired, "port requires revalidation")
    else none
  | .unknown =>
    if settings.requireOperationalProof then
      some (.portUnknown, "port state is UNKNOWN and proof is required")
    else none

/-- Why the ports of an edge exclude it, with the port, or nothing. -/
def portsFailure (settings : ViewSettings) (edge : EdgeRecord) :
    Option (DiagnosticCode × SubjectKey × String) :=
  [edge.fromPort, edge.toPort].findSome? fun port =>
    (portStateFailure settings (settings.snapshot.portStates.stateOf port)).map
      fun (code, detail) => (code, SubjectKey.forPort port, detail)

/-- Why a capability requirement on links or ports excludes an edge, or nothing. -/
def edgeCapabilityFailure (settings : ViewSettings) (edge : EdgeRecord)
    (requirement : CapabilityRequirement) : Option (DiagnosticCode × String) :=
  match requirement.scope with
  | .everyLink =>
    (capabilityFailure settings (.forLink edge.id) requirement).map
      fun failure => (failure, "link capability requirement not satisfied")
  | .everyPort =>
    ((capabilityFailure settings (.forPort edge.fromPort) requirement).or
      (capabilityFailure settings (.forPort edge.toPort) requirement)).map
        fun failure => (failure, "port capability requirement not satisfied")
  | _ => none

/-- Why the failure domains of an edge and its ports exclude it, or nothing. -/
def edgeDomainFailure (settings : ViewSettings) (edge : EdgeRecord) (failClosed : Bool) :
    Option (DiagnosticCode × String) :=
  ([SubjectKey.forLink edge.id, .forPort edge.fromPort, .forPort edge.toPort].findSome?
    fun subject => failureDomainFailure settings subject failClosed).map
      fun failure => (failure, "failure-domain constraint violated")

/-- A cost with a penalty that may apply; nothing on overflow. -/
def penalize (cost : CostValue) (applies : Bool) (penalty : CostValue) : Option CostValue :=
  if applies then checkedAdd cost penalty else some cost

theorem penalize_eq_some_iff {cost penalty sum : CostValue} {applies : Bool} :
    penalize cost applies penalty = some sum ↔
      cost.value + (if applies then penalty.value else 0) = sum.value := by
  unfold penalize
  split_ifs
  · exact checkedAdd_eq_some_iff
  · rw [Option.some_inj, StrongUInt.ext_iff, add_zero]

/-- The traversal cost of an edge, with whether it leaves the locality; nothing on overflow. -/
def traversalCost (settings : ViewSettings) (edge : EdgeRecord) (degraded : Bool) :
    Option (CostValue × Bool) :=
  let outsideLocality :=
    !settings.localityScope.isEmpty && !binarySearch settings.localityScope edge.target
  (penalize edge.staticCost.toCost degraded settings.costModel.degradedPenalty).bind fun cost =>
    (penalize cost outsideLocality settings.costModel.localityPenalty).map fun cost =>
      (cost, outsideLocality)

/-- `PendingAdjacency`. -/
structure PendingAdjacency where
  source : ℕ
  entry : Adjacency

/-- What becomes of an edge. -/
inductive EdgeVerdict
  | skipped
  | aggregated (code : DiagnosticCode) (subject : SubjectKey) (detail : String)
  | listed (code : DiagnosticCode) (subject : SubjectKey) (detail : String)
  | eligible (pending : PendingAdjacency)

/-- The checks of an edge between nodes of the view, from its link state on. -/
def evaluateOperation (settings : ViewSettings) (request : PlanningRequest) (sourceIndex targetIndex
    edgeIndex : ℕ) (edge : EdgeRecord) : EdgeVerdict :=
  let link := SubjectKey.forLink edge.id
  let state := settings.snapshot.linkStates.stateOf edge.id
  match linkStateFailure settings state with
  | some (code, detail) => .aggregated code link detail
  | none =>
    match portsFailure settings edge with
    | some (code, port, detail) => .aggregated code port detail
    | none =>
      match request.constraints.requiredCapabilities.findSome?
        (edgeCapabilityFailure settings edge) with
      | some (code, detail) => .aggregated code link detail
      | none =>
        match edgeDomainFailure settings edge request.constraints.failClosedOnUnknownDomains with
        | some (code, detail) => .aggregated code link detail
        | none =>
          let degraded : Bool := state = .degraded
          match traversalCost settings edge degraded with
          | none => .aggregated .costOverflow link "edge cost accumulation overflow"
          | some (traversalCost, outsideLocality) =>
            .eligible ⟨sourceIndex,
              { target := targetIndex, edge := edgeIndex, traversalCost, degraded, outsideLocality }⟩

/-- The body of the loop over the edges. A node of the snapshot that an edge refers to is found by
identity, and its view index by its position. -/
def evaluateEdge (settings : ViewSettings) (request : PlanningRequest) (scan : NodeScan)
    (edgeIndex : ℕ) (edge : EdgeRecord) : EdgeVerdict :=
  let link := SubjectKey.forLink edge.id
  match findIndex? NodeRecord.id settings.snapshot.nodes edge.source,
      findIndex? NodeRecord.id settings.snapshot.nodes edge.target with
  | some fromSnapshot, some toSnapshot =>
    if edge.layer ≠ request.constraints.layer then
      .aggregated .layerMismatch link "link layer does not match the requested planning layer"
    else if binarySearch (sortBy id request.constraints.forbiddenLinks) edge.id then
      .listed .forbiddenLink link "link is forbidden by the constraint set"
    else if binarySearch (sortBy id request.constraints.forbiddenPorts) edge.fromPort ||
        binarySearch (sortBy id request.constraints.forbiddenPorts) edge.toPort then
      .listed .forbiddenPort link "link port is forbidden by the constraint set"
    else
      match scan.snapshotToViewNode.getD fromSnapshot none,
          scan.snapshotToViewNode.getD toSnapshot none with
      | some sourceIndex, some targetIndex =>
        evaluateOperation settings request sourceIndex targetIndex edgeIndex edge
      | _, _ => .skipped
  | _, _ => .skipped

/-- One iteration of the loop over the edges. -/
def scanEdge (verdict : ℕ → EdgeRecord → EdgeVerdict) (scan : List PendingAdjacency × RejectionLog)
    (indexed : EdgeRecord × ℕ) : List PendingAdjacency × RejectionLog :=
  match verdict indexed.2 indexed.1 with
  | .skipped => scan
  | .aggregated code subject detail => (scan.1, scan.2.aggregate code subject detail)
  | .listed code subject detail => (scan.1, scan.2.explicit code subject detail)
  | .eligible pending => (scan.1 ++ [pending], scan.2)

/-- The loop over the edges. -/
def scanEdges (verdict : ℕ → EdgeRecord → EdgeVerdict) (edges : List EdgeRecord)
    (rejections : RejectionLog) : List PendingAdjacency × RejectionLog :=
  edges.zipIdx.foldl (scanEdge verdict) ([], rejections)

/-! ## The view -/

/-- The order of the entries: source index, destination identity, link identity. -/
def PendingAdjacency.key (snapshot : FabricSnapshot) (viewToSnapshotNode : List ℕ)
    (pending : PendingAdjacency) : ℕ ×ₗ NodeId ×ₗ LinkId :=
  toLex (pending.source, toLex (
    (snapshot.nodes.getD (viewToSnapshotNode.getD pending.entry.target 0) default).id,
    (snapshot.edges.getD pending.entry.edge default).id))

/-- The view of the scanned nodes with the entries kept. -/
def assembleView (settings : ViewSettings) (scan : NodeScan)
    (edges : List PendingAdjacency × RejectionLog) : PlanningView :=
  let pending := sortBy (·.key settings.snapshot scan.viewToSnapshotNode) edges.1
  { settings with
    offsets := CompressedRows.offsets PendingAdjacency.source scan.viewToSnapshotNode.length pending
    adjacency := pending.map (·.entry)
    viewToSnapshotNode := scan.viewToSnapshotNode
    snapshotToViewNode := scan.snapshotToViewNode
    rejections := edges.2
    eligibleEdges := edges.1.length }

/-- A `PlanningViewBuild` that is fatal. -/
structure ViewFailure where
  fatal : DiagnosticCode
  detail : String
  explanations : List ExplanationEntry := []

/-- A `PlanningViewBuild` that is not fatal, with the view indices of the endpoints. -/
structure BuiltView where
  view : PlanningView
  sourceView : ℕ
  destinationView : ℕ

/-- Why an endpoint is not in the view. -/
def excludedEndpoint (snapshot : FabricSnapshot)
    (verdict : NodeRecord → Option (DiagnosticCode × String)) (isSource : Bool) (target : NodeId) :
    ViewFailure :=
  let code := (((snapshot.findNode target).bind verdict).map (·.1)).getD .forbiddenNode
  let name := if isSource then "source" else "destination"
  { fatal := code
    detail := name ++ " node is excluded by a hard constraint"
    explanations := [⟨code, name ++ " node " ++ (SubjectKey.forNode target).toString ++
      " is not eligible"⟩] }

/-- Why a capability requirement on an endpoint is not met, or nothing. -/
def endpointCapabilityFailure (settings : ViewSettings) (sourceNode destinationNode : NodeId)
    (requirement : CapabilityRequirement) : Option ViewFailure :=
  let check (name : String) (target : NodeId) : Option ViewFailure :=
    (capabilityFailure settings (.forNode target) requirement).map fun failure =>
      { fatal := failure
        detail := name ++ " node capability requirement not satisfied for " ++
          requirement.capability.toString }
  match requirement.scope with
  | .sourceNode => check "source" sourceNode
  | .destinationNode => check "destination" destinationNode
  | _ => none

/-- `BuildPlanningView`. -/
def buildPlanningView (snapshot : FabricSnapshot) (request : PlanningRequest)
    (limits : ResourceLimits) (sourceNode destinationNode : NodeId) :
    Except ViewFailure BuiltView :=
  let settings := viewSettings snapshot request limits
  let verdict := evaluateNode settings request (sortBy id request.constraints.forbiddenNodes)
  let scan := scanNodes verdict limits.maxExplanationEntries.toNat snapshot.nodes
  if scan.viewToSnapshotNode.length > limits.maxNodes.toNat then
    .error {
      fatal := .graphTooLarge
      detail := "eligible node count exceeds the configured limit" }
  else
    match viewIndexOf snapshot scan.snapshotToViewNode sourceNode,
        viewIndexOf snapshot scan.snapshotToViewNode destinationNode with
    | none, _ => .error (excludedEndpoint snapshot verdict true sourceNode)
    | some _, none => .error (excludedEndpoint snapshot verdict false destinationNode)
    | some sourceView, some destinationView =>
      match request.constraints.requiredCapabilities.findSome?
          (endpointCapabilityFailure settings sourceNode destinationNode) with
      | some failure => .error failure
      | none =>
        .ok {
          view := assembleView settings scan
            (scanEdges (evaluateEdge settings request scan) snapshot.edges scan.rejections)
          sourceView
          destinationView }

/-! ## What the loops compute -/

section Nodes

variable {verdict : NodeRecord → Option (DiagnosticCode × String)} {maxEntries : ℕ}
  {nodes : List NodeRecord} {scan : NodeScan}

/-- What holds after the nodes so far: the view lists the positions of the nodes that are not
excluded, in order, and the two translations are inverse to each other. -/
structure NodeScan.Numbers (verdict : NodeRecord → Option (DiagnosticCode × String))
    (nodes : List NodeRecord) (scan : NodeScan) : Prop where
  length : scan.snapshotToViewNode.length = nodes.length
  increasing : scan.viewToSnapshotNode.Pairwise (· < ·)
  mem_iff : ∀ i, i ∈ scan.viewToSnapshotNode ↔ ∃ n, nodes[i]? = some n ∧ verdict n = none
  inverse : ∀ i j, scan.snapshotToViewNode.getD i none = some j ↔
    scan.viewToSnapshotNode[j]? = some i

theorem getElem?_snoc {α : Type} (xs : List α) (x : α) (i : ℕ) :
    (xs ++ [x])[i]? = if i = xs.length then some x else xs[i]? := by
  split_ifs with h
  · rw [h, List.getElem?_concat_length]
  · rcases Nat.lt_or_gt_of_ne h with hlt | hgt
    · exact List.getElem?_append_left hlt
    · rw [List.getElem?_eq_none (by simpa using hgt), List.getElem?_eq_none hgt.le]

/-- One more node keeps the numbering. -/
theorem NodeScan.Numbers.step (h : scan.Numbers verdict nodes) (node : NodeRecord) :
    (scanNode verdict scan node).Numbers verdict (nodes ++ [node]) := by
  have hlt : ∀ i ∈ scan.viewToSnapshotNode, i < nodes.length := fun i hi => by
    obtain ⟨n, hn, -⟩ := (h.mem_iff i).mp hi
    exact (List.getElem?_eq_some_iff.mp hn).1
  have hnew : nodes.length ∉ scan.viewToSnapshotNode := fun hi => lt_irrefl _ (hlt _ hi)
  unfold scanNode
  split
  · next code detail hv =>
    refine ⟨by simp [h.length], h.increasing, fun i => ?_, fun i j => ?_⟩
    · simp only [getElem?_snoc, h.mem_iff]
      split_ifs with hi
      · subst hi
        simp [hv]
      · rfl
    · simp only [List.getD_eq_getElem?_getD, getElem?_snoc, ← h.inverse, h.length]
      split_ifs with hi
      · subst hi
        have hnone : scan.snapshotToViewNode[nodes.length]? = none :=
          List.getElem?_eq_none h.length.le
        simp [hnone]
      · rfl
  · next hv =>
    refine ⟨by simp [h.length], ?_, fun i => ?_, fun i j => ?_⟩
    · rw [List.pairwise_append]
      refine ⟨h.increasing, List.pairwise_singleton _ _, fun a ha b hb => ?_⟩
      rw [List.mem_singleton.mp hb, h.length]
      exact hlt a ha
    · simp only [List.mem_append, List.mem_singleton, getElem?_snoc, h.mem_iff, h.length]
      split_ifs with hi
      · subst hi
        simp [hv]
      · simp [hi]
    · simp only [List.getD_eq_getElem?_getD, getElem?_snoc, h.length]
      split_ifs with hi hj hj
      · simp [hi, hj]
      · subst hi
        have hn : scan.viewToSnapshotNode[j]? ≠ some nodes.length :=
          fun hs => hnew (List.mem_of_getElem? hs)
        simpa [hn] using Ne.symm hj
      · subst hj
        rw [← List.getD_eq_getElem?_getD, h.inverse]
        simpa using Ne.symm hi
      · rw [← List.getD_eq_getElem?_getD, h.inverse]

/-- **The loop over the nodes** numbers the nodes that are not excluded. -/
theorem scanNodes_spec : (scanNodes verdict maxEntries nodes).Numbers verdict nodes := by
  induction nodes using List.reverseRecOn with
  | nil => exact ⟨rfl, List.Pairwise.nil, by simp [scanNodes], by simp [scanNodes]⟩
  | append_singleton nodes node ih =>
    rw [scanNodes, List.foldl_append]
    exact ih.step node

/-- The loop over the nodes counts a rejection at most once for each node. -/
theorem scanNodes_countsAtMost :
    (scanNodes verdict maxEntries nodes).rejections.CountsAtMost nodes.length := by
  induction nodes using List.reverseRecOn with
  | nil => exact .new maxEntries 0
  | append_singleton nodes node ih =>
    rw [scanNodes, List.foldl_append, List.length_append]
    change (scanNode verdict (scanNodes verdict maxEntries nodes) node).rejections.CountsAtMost _
    unfold scanNode
    split
    · exact ih.explicit _ _ _
    · exact ih.mono (Nat.le_succ _)

end Nodes

section Edges

variable {verdict : ℕ → EdgeRecord → EdgeVerdict} {edges : List EdgeRecord}
  {rejections : RejectionLog}

/-- The entry of an eligible edge. -/
def EdgeVerdict.pending? : EdgeVerdict → Option PendingAdjacency
  | .eligible pending => some pending
  | _ => none

theorem EdgeVerdict.pending?_eq_some_iff {answer : EdgeVerdict} {pending : PendingAdjacency} :
    answer.pending? = some pending ↔ answer = .eligible pending := by
  cases answer <;> simp [EdgeVerdict.pending?]

/-- **The loop over the edges** keeps the entries of the eligible edges, in order. -/
theorem scanEdges_fst : (scanEdges verdict edges rejections).1 =
    edges.zipIdx.filterMap fun indexed => (verdict indexed.2 indexed.1).pending? := by
  suffices h : ∀ (indexed : List (EdgeRecord × ℕ)) (scan : List PendingAdjacency × RejectionLog),
      (indexed.foldl (scanEdge verdict) scan).1 =
        scan.1 ++ indexed.filterMap fun head => (verdict head.2 head.1).pending? by
    exact (h edges.zipIdx ([], rejections)).trans (List.nil_append _)
  intro indexed
  induction indexed with
  | nil => exact fun scan => (List.append_nil _).symm
  | cons head indexed ih =>
    intro scan
    rw [List.foldl_cons, ih]
    unfold scanEdge
    cases hv : verdict head.2 head.1 <;> simp [hv, EdgeVerdict.pending?]

theorem mem_scanEdges_iff {pending : PendingAdjacency} :
    pending ∈ (scanEdges verdict edges rejections).1 ↔
      ∃ index edge, edges[index]? = some edge ∧ verdict index edge = .eligible pending := by
  rw [scanEdges_fst, List.mem_filterMap]
  constructor
  · rintro ⟨⟨edge, index⟩, hm, hv⟩
    refine ⟨index, edge, List.mem_zipIdx_iff_getElem?.mp hm, ?_⟩
    exact EdgeVerdict.pending?_eq_some_iff.mp hv
  · rintro ⟨index, edge, he, hv⟩
    exact ⟨(edge, index), List.mem_zipIdx_iff_getElem?.mpr he,
      EdgeVerdict.pending?_eq_some_iff.mpr hv⟩

/-- The loop over the edges counts a rejection at most once for each edge. -/
theorem scanEdges_countsAtMost {n : ℕ} (h : rejections.CountsAtMost n) :
    (scanEdges verdict edges rejections).2.CountsAtMost (n + edges.length) := by
  suffices hscan : ∀ (indexed : List (EdgeRecord × ℕ)) (n : ℕ)
      (scan : List PendingAdjacency × RejectionLog), scan.2.CountsAtMost n →
      (indexed.foldl (scanEdge verdict) scan).2.CountsAtMost (n + indexed.length) by
    have hall := hscan edges.zipIdx n ([], rejections) h
    rwa [List.length_zipIdx] at hall
  intro indexed
  induction indexed with
  | nil => exact fun n scan h => h
  | cons head indexed ih =>
    intro n scan h
    have hstep : (scanEdge verdict scan head).2.CountsAtMost (n + 1) := by
      unfold scanEdge
      split
      · exact h.mono n.le_succ
      · exact h.aggregate _ _ _
      · exact h.explicit _ _ _
      · exact h.mono n.le_succ
    rw [List.foldl_cons, List.length_cons, Nat.add_comm indexed.length, ← Nat.add_assoc]
    exact ih (n + 1) _ hstep

end Edges

end PathPlanner
