import PathPlanner.View.Build

/-!
# The rows of a planning view

What a view that is built holds, in terms of the checks of its construction: the nodes that are not
excluded, and the edges between them that pass every check, each once, in sorted compressed rows.
Nothing is asked of the published records, whose keys may repeat.

## Main definitions

* `PassesChecks`, `NodeScan.Keeps`: an edge that is kept, with its entry
* `NodeScan.nodeAt`, `NodeScan.pending`, `NodeScan.view`: the view of the scanned nodes
* `IsCheckedView`: a view whose rows hold edges that passed the checks

## Main results

* `evaluateOperation_eq_eligible_iff`, `evaluateEdge_eq_eligible_iff`: the verdict on an edge
* `buildPlanningView_isCheckedView`: what a construction that is not fatal returns
* `IsCheckedView.wellFormed`, `IsCheckedView.costCoherent`: the search may rely on it
-/

namespace PathPlanner

open SortedList

/-! ## Verdicts on edges -/

section Verdicts

variable {settings : ViewSettings} {request : PlanningRequest} {scan : NodeScan} {i j index : ℕ}
  {edge : EdgeRecord} {pending : PendingAdjacency}

/-- An edge between the view nodes `i` and `j` that passes the checks from its link state on, with
its entry. -/
structure PassesChecks (settings : ViewSettings) (request : PlanningRequest) (i j index : ℕ)
    (edge : EdgeRecord) (pending : PendingAdjacency) : Prop where
  source : pending.source = i
  target : pending.entry.target = j
  position : pending.entry.edge = index
  linkState : linkStateFailure settings (settings.snapshot.linkStates.stateOf edge.id) = none
  ports : portsFailure settings edge = none
  capable : ∀ r ∈ request.constraints.requiredCapabilities,
    edgeCapabilityFailure settings edge r = none
  compliant : edgeDomainFailure settings edge request.constraints.failClosedOnUnknownDomains = none
  degraded : pending.entry.degraded =
    decide (settings.snapshot.linkStates.stateOf edge.id = .degraded)
  cost : traversalCost settings edge pending.entry.degraded =
    some (pending.entry.traversalCost, pending.entry.outsideLocality)

/-- **The checks from the link state on** keep the edges that pass them. -/
theorem evaluateOperation_eq_eligible_iff :
    evaluateOperation settings request i j index edge = .eligible pending ↔
      PassesChecks settings request i j index edge pending := by
  unfold evaluateOperation
  dsimp only
  constructor
  · intro h
    split at h
    · cases h
    next hlink =>
    split at h
    · cases h
    next hports =>
    split at h
    · cases h
    next hcap =>
    split at h
    · cases h
    next hdom =>
    split at h
    · cases h
    next cost outside hcost =>
    obtain rfl := EdgeVerdict.eligible.inj h
    exact ⟨rfl, rfl, rfl, hlink, hports, List.findSome?_eq_none_iff.mp hcap, hdom, rfl, hcost⟩
  · rintro ⟨rfl, rfl, rfl, hlink, hports, hcap, hdom, hdegraded, hcost⟩
    simp only [hlink, hports, List.findSome?_eq_none_iff.mpr hcap, hdom, ← hdegraded, hcost]

/-- An edge that is kept between the scanned nodes, with its entry. -/
structure NodeScan.Keeps (scan : NodeScan) (settings : ViewSettings) (request : PlanningRequest)
    (index : ℕ) (edge : EdgeRecord) (pending : PendingAdjacency) : Prop where
  layer : edge.layer = request.constraints.layer
  linkPermitted : edge.id ∉ request.constraints.forbiddenLinks
  portsPermitted : ∀ port ∈ [edge.fromPort, edge.toPort], port ∉ request.constraints.forbiddenPorts
  source : viewIndexOf settings.snapshot scan.snapshotToViewNode edge.source = some pending.source
  target : viewIndexOf settings.snapshot scan.snapshotToViewNode edge.target =
    some pending.entry.target
  checks : PassesChecks settings request pending.source pending.entry.target index edge pending

theorem viewIndexOf_of_findIndex? {snapshot : FabricSnapshot} {id : NodeId} {a : ℕ}
    (h : findIndex? NodeRecord.id snapshot.nodes id = some a) :
    viewIndexOf snapshot scan.snapshotToViewNode id = scan.snapshotToViewNode.getD a none := by
  rw [viewIndexOf, h]

/-- **The verdict on an edge** keeps it between the view nodes of its ends. -/
theorem evaluateEdge_eq_eligible_iff :
    evaluateEdge settings request scan index edge = .eligible pending ↔
      scan.Keeps settings request index edge pending := by
  unfold evaluateEdge
  dsimp only
  split
  case h_2 hno =>
    refine iff_of_false (by simp) fun hk => ?_
    have hs := hk.source
    have ht := hk.target
    unfold viewIndexOf at hs ht
    cases ha : findIndex? NodeRecord.id settings.snapshot.nodes edge.source with
    | none => simp [ha] at hs
    | some a =>
      cases hb : findIndex? NodeRecord.id settings.snapshot.nodes edge.target with
      | none => simp [hb] at ht
      | some b => exact hno a b ha hb
  case h_1 a b ha hb =>
    rw [← viewIndexOf_of_findIndex? ha, ← viewIndexOf_of_findIndex? hb]
    simp only [binarySearch_sortBy, Bool.or_eq_true]
    split_ifs with hlayer hlink hport
    · exact iff_of_false (by simp) fun hk => hlayer hk.layer
    · exact iff_of_false (by simp) fun hk => hk.linkPermitted hlink
    · refine iff_of_false (by simp) fun hk => ?_
      rcases hport with hp | hp
      · exact hk.portsPermitted _ (by simp) hp
      · exact hk.portsPermitted _ (by simp) hp
    · split
      · next i j hi hj =>
        rw [evaluateOperation_eq_eligible_iff]
        constructor
        · intro hc
          obtain ⟨rfl, rfl, -⟩ := id hc
          exact ⟨not_not.mp hlayer, hlink, by simpa [not_or] using hport, hi, hj, hc⟩
        · intro hk
          obtain rfl := Option.some.inj (hk.source.symm.trans hi)
          obtain rfl := Option.some.inj (hk.target.symm.trans hj)
          exact hk.checks
      · next hno => exact iff_of_false (by simp) fun hk => hno _ _ hk.source hk.target

end Verdicts

/-! ## View indices -/

section Indices

variable {snapshot : FabricSnapshot} {verdict : NodeRecord → Option (DiagnosticCode × String)}
  {scan : NodeScan}

/-- The node of the snapshot at a view index. -/
def NodeScan.nodeAt (scan : NodeScan) (snapshot : FabricSnapshot) (i : ℕ) : NodeRecord :=
  snapshot.nodes.getD (scan.viewToSnapshotNode.getD i 0) default

/-- The node at a view index is a node of the snapshot that is not excluded. -/
theorem NodeScan.Numbers.nodeAt_spec (h : scan.Numbers verdict snapshot.nodes) {i : ℕ}
    (hi : i < scan.viewToSnapshotNode.length) :
    snapshot.nodes[scan.viewToSnapshotNode.getD i 0]? = some (scan.nodeAt snapshot i) ∧
      verdict (scan.nodeAt snapshot i) = none := by
  have hget : scan.viewToSnapshotNode.getD i 0 = scan.viewToSnapshotNode[i] := by
    simp [List.getD_eq_getElem?_getD, hi]
  obtain ⟨n, hn, hv⟩ := (h.mem_iff _).mp (List.getElem_mem hi)
  rw [← hget] at hn
  have : scan.nodeAt snapshot i = n := by
    change snapshot.nodes[scan.viewToSnapshotNode.getD i 0]?.getD default = n
    rw [hn]
    rfl
  rw [this]
  exact ⟨hn, hv⟩

/-- Every node that is not excluded has a view index. -/
theorem NodeScan.Numbers.exists_nodeAt (h : scan.Numbers verdict snapshot.nodes) {n : NodeRecord}
    (hn : n ∈ snapshot.nodes) (hv : verdict n = none) :
    ∃ i < scan.viewToSnapshotNode.length, scan.nodeAt snapshot i = n := by
  obtain ⟨a, ha⟩ := List.mem_iff_getElem?.mp hn
  obtain ⟨i, hi, he⟩ := List.mem_iff_getElem.mp ((h.mem_iff a).mpr ⟨n, ha, hv⟩)
  exact ⟨i, hi, by simp [NodeScan.nodeAt, List.getD_eq_getElem?_getD, hi, he, ha]⟩

/-- Different view indices have nodes of different identities. -/
theorem NodeScan.Numbers.nodeAt_injective (h : scan.Numbers verdict snapshot.nodes) {i j : ℕ}
    (hi : i < scan.viewToSnapshotNode.length) (hj : j < scan.viewToSnapshotNode.length)
    (he : (scan.nodeAt snapshot i).id = (scan.nodeAt snapshot j).id) : i = j := by
  have hpos := eq_of_key_eq snapshot.nodes_sorted (h.nodeAt_spec hi).1 (h.nodeAt_spec hj).1 he
  simp only [List.getD_eq_getElem?_getD, hi, hj, List.getElem?_eq_getElem, Option.getD_some] at hpos
  have hnodup : scan.viewToSnapshotNode.Nodup := h.increasing.imp ne_of_lt
  exact hnodup.getElem_inj_iff.mp hpos

/-- **A view index** of an identity is that of the eligible node with the identity. -/
theorem NodeScan.Numbers.viewIndexOf_eq_some_iff (h : scan.Numbers verdict snapshot.nodes)
    {id : NodeId} {i : ℕ} : viewIndexOf snapshot scan.snapshotToViewNode id = some i ↔
      i < scan.viewToSnapshotNode.length ∧ (scan.nodeAt snapshot i).id = id := by
  unfold viewIndexOf
  constructor
  · intro hs
    split at hs
    · cases hs
    · next a ha =>
      obtain ⟨n, hn, rfl⟩ := getElem?_of_findIndex? ha
      rw [h.inverse] at hs
      obtain ⟨hi, he⟩ := List.getElem?_eq_some_iff.mp hs
      exact ⟨hi, by simp [NodeScan.nodeAt, List.getD_eq_getElem?_getD, hi, he, hn]⟩
  · rintro ⟨hi, rfl⟩
    rw [(findIndex?_eq_some_iff snapshot.nodes_sorted).mpr ⟨_, (h.nodeAt_spec hi).1, rfl⟩]
    dsimp only
    rw [h.inverse, List.getD_eq_getElem?_getD, List.getElem?_eq_getElem hi]
    rfl

end Indices

/-! ## The view that is built -/

section Built

variable {snapshot : FabricSnapshot} {request : PlanningRequest} {limits : ResourceLimits}
  {scan : NodeScan}

/-- The numbering that the construction uses. -/
def NodeScan.NumbersEligible (snapshot : FabricSnapshot) (request : PlanningRequest)
    (limits : ResourceLimits) (scan : NodeScan) : Prop :=
  scan.Numbers (evaluateNode (viewSettings snapshot request limits) request
    (sortBy id request.constraints.forbiddenNodes)) snapshot.nodes

/-- The entries kept by the loop over the edges, in the order of the view. -/
def NodeScan.pending (scan : NodeScan) (snapshot : FabricSnapshot) (request : PlanningRequest)
    (limits : ResourceLimits) : List PendingAdjacency :=
  sortBy (·.key snapshot scan.viewToSnapshotNode) (scanEdges
    (evaluateEdge (viewSettings snapshot request limits) request scan) snapshot.edges
    scan.rejections).1

theorem NodeScan.mem_pending_iff_keeps {p : PendingAdjacency} :
    p ∈ scan.pending snapshot request limits ↔ ∃ edge, snapshot.edges[p.entry.edge]? = some edge ∧
      scan.Keeps (viewSettings snapshot request limits) request p.entry.edge edge p := by
  rw [NodeScan.pending, mem_sortBy, mem_scanEdges_iff]
  simp only [evaluateEdge_eq_eligible_iff]
  constructor
  · rintro ⟨index, edge, he, hk⟩
    obtain rfl := hk.checks.position
    exact ⟨edge, he, hk⟩
  · rintro ⟨edge, he, hk⟩
    exact ⟨_, edge, he, hk⟩

variable (scan snapshot request limits) in
/-- The entries stand for different edges. -/
theorem NodeScan.nodup_positions :
    ((scan.pending snapshot request limits).map (·.entry.edge)).Nodup := by
  rw [NodeScan.pending, ((perm_sortBy _ _).map _).nodup_iff, scanEdges_fst, List.nodup_iff_pairwise_ne,
    List.pairwise_map, List.pairwise_filterMap]
  have hpos : snapshot.edges.zipIdx.Pairwise (fun a b => a.2 ≠ b.2) := by
    have hrange : (snapshot.edges.zipIdx.map Prod.snd).Nodup := by
      rw [List.zipIdx_map_snd]
      exact List.nodup_range'
    exact List.pairwise_map.mp hrange
  have hindex : ∀ (a : EdgeRecord × ℕ) p, (evaluateEdge (viewSettings snapshot request limits)
      request scan a.2 a.1).pending? = some p → p.entry.edge = a.2 := by
    intro a p hp
    exact (evaluateEdge_eq_eligible_iff.mp (EdgeVerdict.pending?_eq_some_iff.mp hp)).checks.position
  refine hpos.imp fun {a b} hne p hp q hq => ?_
  rw [hindex a p hp, hindex b q hq]
  exact hne

/-- **The entries are strictly sorted** by source, destination identity and link identity. -/
theorem NodeScan.pairwise_pending : (scan.pending snapshot request limits).Pairwise
    (·.key snapshot scan.viewToSnapshotNode < ·.key snapshot scan.viewToSnapshotNode) := by
  refine pairwise_lt_of_nodup (pairwise_sortBy _ _) ?_
  have hn := scan.nodup_positions snapshot request limits
  rw [List.nodup_iff_pairwise_ne, List.pairwise_map] at hn ⊢
  refine hn.imp_of_mem fun {p q} hp hq hne he => hne ?_
  obtain ⟨e, hs, -⟩ := mem_pending_iff_keeps.mp hp
  obtain ⟨f, ht, -⟩ := mem_pending_iff_keeps.mp hq
  refine eq_of_key_eq snapshot.edges_sorted hs ht ?_
  have hlink := (Prod.mk.inj (toLex.injective (Prod.mk.inj (toLex.injective he)).2)).2
  simpa [List.getD_eq_getElem?_getD, hs, ht] using hlink

/-- The entries are ordered by source. -/
theorem NodeScan.pairwise_source : (scan.pending snapshot request limits).Pairwise
    (·.source ≤ ·.source) :=
  pairwise_pending.imp fun hlt => Prod.Lex.monotone_fst _ _ hlt.le

/-- The view assembled from the nodes scanned. -/
def NodeScan.view (scan : NodeScan) (snapshot : FabricSnapshot) (request : PlanningRequest)
    (limits : ResourceLimits) : PlanningView :=
  assembleView (viewSettings snapshot request limits) scan (scanEdges
    (evaluateEdge (viewSettings snapshot request limits) request scan) snapshot.edges
    scan.rejections)

theorem NodeScan.view_adjacency : (scan.view snapshot request limits).adjacency =
    (scan.pending snapshot request limits).map (·.entry) := rfl

theorem NodeScan.view_offsets : (scan.view snapshot request limits).offsets =
    CompressedRows.offsets PendingAdjacency.source scan.viewToSnapshotNode.length
      (scan.pending snapshot request limits) := rfl

theorem NodeScan.view_nodeAt (i : ℕ) :
    (scan.view snapshot request limits).nodeAt i = scan.nodeAt snapshot i := rfl

/-- The entry at a position, with the edge that is kept. -/
theorem NodeScan.exists_keeps_at {k : ℕ}
    (hk : k < (scan.view snapshot request limits).adjacency.length) :
    ∃ p, (scan.pending snapshot request limits)[k]? = some p ∧
      (scan.view snapshot request limits).adjacencyAt k = p.entry ∧
      snapshot.edges[p.entry.edge]? = some ((scan.view snapshot request limits).edgeAt
        ((scan.view snapshot request limits).adjacencyAt k).edge) ∧
      scan.Keeps (viewSettings snapshot request limits) request p.entry.edge
        ((scan.view snapshot request limits).edgeAt
          ((scan.view snapshot request limits).adjacencyAt k).edge) p := by
  rw [NodeScan.view_adjacency, List.length_map] at hk
  have hget := List.getElem?_eq_getElem hk
  have hentry : (scan.view snapshot request limits).adjacencyAt k =
      (scan.pending snapshot request limits)[k].entry := by
    rw [PlanningView.adjacencyAt, NodeScan.view_adjacency, List.getD_eq_getElem?_getD,
      List.getElem?_map, hget]
    rfl
  obtain ⟨edge, hposition, hkeeps⟩ := NodeScan.mem_pending_iff_keeps.mp (List.getElem_mem hk)
  have hedge : (scan.view snapshot request limits).edgeAt
      ((scan.view snapshot request limits).adjacencyAt k).edge = edge := by
    rw [hentry, PlanningView.edgeAt, List.getD_eq_getElem?_getD]
    change (snapshot.edges[_]?).getD default = edge
    rw [hposition]
    rfl
  rw [hedge]
  exact ⟨_, hget, hentry, hposition, hkeeps⟩

/-- The entries have sources in the view. -/
theorem NodeScan.NumbersEligible.source_lt (h : scan.NumbersEligible snapshot request limits)
    {p : PendingAdjacency} (hp : p ∈ scan.pending snapshot request limits) :
    p.source < scan.viewToSnapshotNode.length := by
  obtain ⟨edge, -, hk⟩ := NodeScan.mem_pending_iff_keeps.mp hp
  exact (h.viewIndexOf_eq_some_iff.mp hk.source).1

/-- The positions of a row are those of the entries with the source. -/
theorem NodeScan.mem_adjacencyRange_iff {u k : ℕ} (hu' : u < scan.viewToSnapshotNode.length)
    {p : PendingAdjacency} (hp : (scan.pending snapshot request limits)[k]? = some p) :
    k ∈ (scan.view snapshot request limits).adjacencyRange u ↔ p.source = u := by
  rw [PlanningView.mem_adjacencyRange]
  exact CompressedRows.mem_row_iff NodeScan.pairwise_source hu' hp

/-- A view of nodes and edges of a snapshot, each once, in sorted compressed rows, whose edges are on
the requested layer and passed the checks of the construction. -/
structure IsCheckedView (snapshot : FabricSnapshot) (request : PlanningRequest)
    (limits : ResourceLimits) (view : PlanningView) : Prop where
  settings : view.toViewSettings = viewSettings snapshot request limits
  nodeCount_le : view.nodeCount ≤ limits.maxNodes.toNat
  node_mem : ∀ i < view.nodeCount, view.nodeAt i ∈ snapshot.nodes
  node_injective : ∀ i < view.nodeCount, ∀ j < view.nodeCount,
    (view.nodeAt i).id = (view.nodeAt j).id → i = j
  viewIndex_iff : ∀ id i, view.viewIndex id = some i ↔ i < view.nodeCount ∧ (view.nodeAt i).id = id
  edge_lt : ∀ k < view.adjacency.length, (view.adjacencyAt k).edge < snapshot.edges.length
  edge_injective : ∀ k < view.adjacency.length, ∀ l < view.adjacency.length,
    (view.adjacencyAt k).edge = (view.adjacencyAt l).edge → k = l
  offsets_length : view.offsets.length = view.nodeCount + 1
  offsets_zero : view.offsets.getD 0 0 = 0
  offsets_le : ∀ u < view.nodeCount, view.adjacencyBegin u ≤ view.adjacencyEnd u
  offsets_last : view.offsets.getD view.nodeCount 0 = view.adjacency.length
  mem_row_iff : ∀ u < view.nodeCount, ∀ k < view.adjacency.length, k ∈ view.adjacencyRange u ↔
    (view.nodeAt u).id = (view.edgeAt (view.adjacencyAt k).edge).source
  rows_sorted : ∀ u < view.nodeCount, (view.adjacencyRange u).Pairwise fun k l =>
    toLex ((view.nodeAt (view.adjacencyAt k).target).id, view.linkAt k) <
      toLex ((view.nodeAt (view.adjacencyAt l).target).id, view.linkAt l)
  target : ∀ k < view.adjacency.length, (view.adjacencyAt k).target < view.nodeCount ∧
    (view.nodeAt (view.adjacencyAt k).target).id = (view.edgeAt (view.adjacencyAt k).edge).target
  layer : ∀ k < view.adjacency.length,
    (view.edgeAt (view.adjacencyAt k).edge).layer = request.constraints.layer
  linkState : ∀ k < view.adjacency.length, linkStateFailure (viewSettings snapshot request limits)
    (snapshot.linkStates.stateOf (view.linkAt k)) = none
  ports : ∀ k < view.adjacency.length, portsFailure (viewSettings snapshot request limits)
    (view.edgeAt (view.adjacencyAt k).edge) = none
  cost : ∀ k < view.adjacency.length, traversalCost (viewSettings snapshot request limits)
    (view.edgeAt (view.adjacencyAt k).edge) (view.adjacencyAt k).degraded =
      some ((view.adjacencyAt k).traversalCost, (view.adjacencyAt k).outsideLocality)

/-- **The assembled view** is a view of the edges that pass the checks. -/
theorem NodeScan.NumbersEligible.isCheckedView (h : scan.NumbersEligible snapshot request limits)
    (hcount : scan.viewToSnapshotNode.length ≤ limits.maxNodes.toNat) :
    IsCheckedView snapshot request limits (scan.view snapshot request limits) where
  settings := rfl
  nodeCount_le := hcount
  node_mem i hi := List.mem_of_getElem? (h.nodeAt_spec hi).1
  node_injective i hi j hj he := h.nodeAt_injective hi hj he
  viewIndex_iff id i := h.viewIndexOf_eq_some_iff
  edge_lt k hk := by
    obtain ⟨p, -, he, hposition, -⟩ := NodeScan.exists_keeps_at hk
    rw [he]
    exact (List.getElem?_eq_some_iff.mp hposition).1
  edge_injective k hk l hl he := by
    obtain ⟨p, hp, hpe, -⟩ := NodeScan.exists_keeps_at hk
    obtain ⟨q, hq, hqe, -⟩ := NodeScan.exists_keeps_at hl
    rw [hpe, hqe] at he
    refine (List.getElem?_inj ?_ (scan.nodup_positions snapshot request limits)).mp ?_
    · simpa using (List.getElem?_eq_some_iff.mp hp).1
    · rw [List.getElem?_map, List.getElem?_map, hp, hq, Option.map_some, Option.map_some, he]
  offsets_length := CompressedRows.length_offsets
  offsets_zero := by
    rw [NodeScan.view_offsets, CompressedRows.getD_offsets (Nat.zero_le _)]
    simp
  offsets_le u hu' := CompressedRows.offsets_le hu'
  offsets_last := by
    rw [NodeScan.view_adjacency, List.length_map]
    exact CompressedRows.getD_offsets_last fun p hp => h.source_lt hp
  mem_row_iff u hu' k hk := by
    obtain ⟨p, hp, -, -, hs⟩ := NodeScan.exists_keeps_at hk
    rw [NodeScan.mem_adjacencyRange_iff hu' hp]
    obtain ⟨hlt, hid⟩ := h.viewIndexOf_eq_some_iff.mp hs.source
    constructor
    · rintro rfl
      exact hid
    · exact fun he => h.nodeAt_injective hlt hu' (hid.trans he.symm)
  rows_sorted u hu' := by
    have hlt : ((scan.view snapshot request limits).adjacencyRange u).Pairwise (· < ·) :=
      List.pairwise_lt_range'
    refine hlt.imp_of_mem fun {k l} hk hl hkl => ?_
    have hlen : ∀ {k}, k ∈ (scan.view snapshot request limits).adjacencyRange u →
        k < (scan.view snapshot request limits).adjacency.length := fun {k} hk => by
      rw [PlanningView.mem_adjacencyRange] at hk
      refine hk.2.trans_le ?_
      rw [NodeScan.view_adjacency, List.length_map, PlanningView.adjacencyEnd,
        NodeScan.view_offsets,
        CompressedRows.getD_offsets (show u + 1 ≤ scan.viewToSnapshotNode.length from hu')]
      exact List.countP_le_length
    obtain ⟨p, hp, hpe, -⟩ := NodeScan.exists_keeps_at (hlen hk)
    obtain ⟨q, hq, hqe, -⟩ := NodeScan.exists_keeps_at (hlen hl)
    have hps' := (NodeScan.mem_adjacencyRange_iff hu' hp).mp hk
    have hqs' := (NodeScan.mem_adjacencyRange_iff hu' hq).mp hl
    obtain ⟨hk', rfl⟩ := List.getElem?_eq_some_iff.mp hp
    obtain ⟨hl', rfl⟩ := List.getElem?_eq_some_iff.mp hq
    have hkey := List.pairwise_iff_getElem.mp NodeScan.pairwise_pending k l hk' hl' hkl
    rw [PendingAdjacency.key, PendingAdjacency.key, Prod.Lex.toLex_lt_toLex, hps', hqs'] at hkey
    rw [PlanningView.linkAt, PlanningView.linkAt, hpe, hqe]
    exact (hkey.resolve_left (lt_irrefl u)).2
  target k hk := by
    obtain ⟨p, -, he, -, hs⟩ := NodeScan.exists_keeps_at hk
    have htarget := hs.target
    rw [← he] at htarget
    exact h.viewIndexOf_eq_some_iff.mp htarget
  layer k hk := by
    obtain ⟨p, -, -, -, hs⟩ := NodeScan.exists_keeps_at hk
    exact hs.layer
  linkState k hk := by
    obtain ⟨p, -, -, -, hs⟩ := NodeScan.exists_keeps_at hk
    exact hs.checks.linkState
  ports k hk := by
    obtain ⟨p, -, -, -, hs⟩ := NodeScan.exists_keeps_at hk
    exact hs.checks.ports
  cost k hk := by
    obtain ⟨p, -, he, -, hs⟩ := NodeScan.exists_keeps_at hk
    have hcost := hs.checks.cost
    rw [← he] at hcost
    exact hcost

/-- What a construction that is not fatal returns. -/
theorem buildPlanningView_eq_ok {source destination : NodeId} {built : BuiltView}
    (h : buildPlanningView snapshot request limits source destination = .ok built) :
    ∃ scan : NodeScan, scan.NumbersEligible snapshot request limits ∧
      scan.viewToSnapshotNode.length ≤ limits.maxNodes.toNat ∧
      scan.rejections.CountsAtMost snapshot.nodes.length ∧
      built.view = scan.view snapshot request limits ∧
      viewIndexOf snapshot scan.snapshotToViewNode source = some built.sourceView ∧
      viewIndexOf snapshot scan.snapshotToViewNode destination = some built.destinationView ∧
      ∀ r ∈ request.constraints.requiredCapabilities, endpointCapabilityFailure
        (viewSettings snapshot request limits) source destination r = none := by
  unfold buildPlanningView at h
  dsimp only at h
  split_ifs at h with hcount
  split at h
  · cases h
  · cases h
  · next s d hs hd =>
    split at h
    · cases h
    · next hcap =>
      obtain rfl := Except.ok.inj h
      exact ⟨_, scanNodes_spec, not_lt.mp hcount, scanNodes_countsAtMost, rfl, hs, hd,
        List.findSome?_eq_none_iff.mp hcap⟩

/-- **A view that is built** holds checked rows, and the endpoints are nodes of it. -/
theorem buildPlanningView_isCheckedView {source destination : NodeId} {built : BuiltView}
    (h : buildPlanningView snapshot request limits source destination = .ok built) :
    IsCheckedView snapshot request limits built.view ∧
      (built.sourceView < built.view.nodeCount ∧
        (built.view.nodeAt built.sourceView).id = source) ∧
      (built.destinationView < built.view.nodeCount ∧
        (built.view.nodeAt built.destinationView).id = destination) := by
  obtain ⟨scan, hnum, hcount, -, hview, hs, hd, -⟩ := buildPlanningView_eq_ok h
  rw [hview]
  exact ⟨hnum.isCheckedView hcount, hnum.viewIndexOf_eq_some_iff.mp hs,
    hnum.viewIndexOf_eq_some_iff.mp hd⟩

/-- A rejection is counted at most once for each node and each edge of the snapshot. -/
theorem buildPlanningView_countsAtMost {source destination : NodeId} {built : BuiltView}
    (h : buildPlanningView snapshot request limits source destination = .ok built) :
    built.view.rejections.CountsAtMost (snapshot.nodes.length + snapshot.edges.length) := by
  obtain ⟨scan, -, -, hcounts, hview, -⟩ := buildPlanningView_eq_ok h
  rw [hview]
  exact scanEdges_countsAtMost hcounts

end Built

/-! ## What the search relies on -/

namespace IsCheckedView

variable {snapshot : FabricSnapshot} {request : PlanningRequest} {limits : ResourceLimits}
  {view : PlanningView} (hv : IsCheckedView snapshot request limits view)

include hv

theorem snapshot_eq : view.snapshot = snapshot :=
  congrArg ViewSettings.snapshot hv.settings

theorem costModel_eq : view.costModel = request.policy.costModel :=
  congrArg ViewSettings.costModel hv.settings

/-- The edge behind an entry is an edge of the snapshot. -/
theorem edge_mem {k : ℕ} (hk : k < view.adjacency.length) :
    view.edgeAt (view.adjacencyAt k).edge ∈ snapshot.edges := by
  have hlt := hv.edge_lt k hk
  rw [PlanningView.edgeAt, hv.snapshot_eq, List.getD_eq_getElem?_getD, List.getElem?_eq_getElem hlt]
  exact List.getElem_mem hlt

/-- **A checked view is well formed.** -/
theorem wellFormed : view.WellFormed where
  nodeCount_lt := hv.nodeCount_le.trans_lt limits.maxNodes.toNat_lt
  offsets_length := hv.offsets_length
  offsets_zero := hv.offsets_zero
  offsets_le := hv.offsets_le
  offsets_last := hv.offsets_last
  target_lt k hk := (hv.target k hk).1
  node_injective := hv.node_injective
  link_injective k hk l hl he := by
    refine hv.edge_injective k hk l hl ?_
    have hk' := hv.edge_lt k hk
    have hl' := hv.edge_lt l hl
    simp only [PlanningView.linkAt, PlanningView.edgeAt, hv.snapshot_eq,
      List.getD_eq_getElem?_getD, List.getElem?_eq_getElem, hk', hl', Option.getD_some] at he
    exact eq_of_key_eq snapshot.edges_sorted (List.getElem?_eq_getElem hk')
      (List.getElem?_eq_getElem hl') he
  rows_sorted := hv.rows_sorted

/-- **The costs of a checked view are coherent.** -/
theorem costCoherent : view.CostCoherent := by
  intro k hk
  have hcost := hv.cost k hk
  unfold traversalCost at hcost
  simp only [Option.bind_eq_some_iff, Option.map_eq_some_iff, penalize_eq_some_iff,
    StaticCost.value_toCost, Prod.mk.injEq, viewSettings_costModel] at hcost
  obtain ⟨cost, hdegraded, total, hlocality, rfl, hout⟩ := hcost
  rw [hout] at hlocality
  rw [PlanningView.exactIncrement, exactHopCost, hv.costModel_eq, ← hlocality, ← hdegraded]
  rfl

end IsCheckedView

end PathPlanner
