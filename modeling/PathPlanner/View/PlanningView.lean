import PathPlanner.Library.TightWalk
import PathPlanner.Plan.Request
import PathPlanner.Snapshot.Fabric
import PathPlanner.View.RejectionLog

/-!
# Planning views

A planning view is the eligible, cost-resolved graph of one request. Its nodes are numbered from
zero, and the adjacency of node `u` is the segment from `offsets[u]` up to `offsets[u + 1]` of one
array of entries. The view is a multigraph whose edges are the positions in that array.

## Main definitions

* `ViewSettings`: the settings a view is built under
* `Adjacency`, `PlanningView`: the view in compressed rows
* `PlanningView.graph`, `PlanningView.ranking`: the view as a multigraph with the canonical order
* `PlanningView.WellFormed`: the rows partition the entries, are sorted, and identify their nodes
  and links
* `PlanningView.CostCoherent`: the traversal cost of an entry is what its path cost is made of

## Main results

* `PlanningView.WellFormed.sortedOut`, `PlanningView.WellFormed.injectiveTargets`,
  `PlanningView.WellFormed.eq_of_edge_eq`: a well-formed view is a sorted multigraph with unique
  identities
* `PlanningView.WellFormed.length_lt_of_isSimple`: a simple path has fewer hops than the view has
  nodes
-/

namespace PathPlanner

open SortedList

/-- The settings of a `PlanningView`, taken from the snapshot, the request and the limits. -/
structure ViewSettings where
  snapshot : FabricSnapshot
  limits : ResourceLimits
  layer : PathLayer
  costModel : CostModel
  diagnosticMode : Bool
  requireOperationalProof : Bool
  allowDegradedLinks : Bool
  allowDrainingPorts : Bool
  allowMaintenancePorts : Bool
  localityScope : List NodeId
  forbiddenFailureDomains : List FailureDomainId
  forbiddenFailureDomainClasses : List FailureDomainClass
  failClosedOnUnknownDomains : Bool
  provisional : Bool

/-- `Adjacency`: the view node it leads to, the snapshot edge, the cost and the flags. -/
structure Adjacency where
  target : ℕ
  edge : ℕ
  traversalCost : CostValue
  degraded : Bool
  outsideLocality : Bool

instance : Inhabited Adjacency where
  default := ⟨0, 0, default, false, false⟩

/-- `PlanningView`. A snapshot node outside the view has no view index. -/
structure PlanningView extends ViewSettings where
  offsets : List ℕ
  adjacency : List Adjacency
  viewToSnapshotNode : List ℕ
  snapshotToViewNode : List (Option ℕ)
  rejections : RejectionLog
  eligibleEdges : ℕ

/-- The view index of a node: nothing when the snapshot or the view lacks it. -/
def viewIndexOf (snapshot : FabricSnapshot) (snapshotToViewNode : List (Option ℕ)) (id : NodeId) :
    Option ℕ :=
  match findIndex? NodeRecord.id snapshot.nodes id with
  | none => none
  | some index => snapshotToViewNode.getD index none

namespace PlanningView

variable (view : PlanningView)

/-- `PlanningView::NodeCount`. -/
def nodeCount : ℕ := view.viewToSnapshotNode.length

/-- `PlanningView::NodeAt`. -/
def nodeAt (i : ℕ) : NodeRecord := view.snapshot.nodes.getD (view.viewToSnapshotNode.getD i 0) default

/-- `PlanningView::EdgeAt`. -/
def edgeAt (e : ℕ) : EdgeRecord := view.snapshot.edges.getD e default

/-- `PlanningView::ViewIndex`. -/
def viewIndex (id : NodeId) : Option ℕ := viewIndexOf view.snapshot view.snapshotToViewNode id

/-- The adjacency entry at a position. -/
def adjacencyAt (k : ℕ) : Adjacency := view.adjacency.getD k default

/-- `AdjacencyBegin`. -/
def adjacencyBegin (node : ℕ) : ℕ := view.offsets.getD node 0

/-- `AdjacencyEnd`. -/
def adjacencyEnd (node : ℕ) : ℕ := view.offsets.getD (node + 1) 0

/-- The positions of the entries of a node, in order. -/
def adjacencyRange (node : ℕ) : List ℕ :=
  List.range' (view.adjacencyBegin node) (view.adjacencyEnd node - view.adjacencyBegin node)

/-- The link identity behind an entry. -/
def linkAt (k : ℕ) : LinkId := (view.edgeAt (view.adjacencyAt k).edge).id

/-- `HopIncrement`: the hop cost plus the traversal cost. -/
def hopIncrement (entry : Adjacency) : Option CostValue :=
  checkedAdd view.costModel.hopCost entry.traversalCost

/-- The cost inputs of an entry, as `ComputeRawPathCost` resolves them. -/
def hopCostInput (k : ℕ) : HopCostInput where
  staticCost := (view.edgeAt (view.adjacencyAt k).edge).staticCost
  degraded := (view.adjacencyAt k).degraded
  outsideLocality := (view.adjacencyAt k).outsideLocality

/-! ## The view as a multigraph -/

/-- The exact cost of traversing an entry. -/
def exactIncrement (k : ℕ) : ℕ :=
  view.costModel.hopCost.value + (view.adjacencyAt k).traversalCost.value

/-- The multigraph of the view. -/
def graph : Multigraph ℕ ℕ where
  out := view.adjacencyRange
  target k := (view.adjacencyAt k).target

/-- The canonical order of the view: exact cost, hops, node identities, link identities. -/
def ranking : Multigraph.Ranking ℕ ℕ NodeId LinkId where
  weight := view.exactIncrement
  node i := (view.nodeAt i).id
  edge := view.linkAt

/-- The canonical key of a path from a node. -/
def pathKey (u : ℕ) (path : List ℕ) : ℕ ×ₗ ℕ ×ₗ List NodeId ×ₗ List LinkId :=
  view.ranking.key view.graph u path

/-- The exact total cost of a path. -/
def pathWeight (path : List ℕ) : ℕ := Multigraph.weight view.exactIncrement path

@[simp] theorem graph_out (node : ℕ) : view.graph.out node = view.adjacencyRange node := rfl

@[simp] theorem graph_target (k : ℕ) : view.graph.target k = (view.adjacencyAt k).target := rfl

@[simp] theorem ranking_weight : view.ranking.weight = view.exactIncrement := rfl

@[simp] theorem ranking_node (i : ℕ) : view.ranking.node i = (view.nodeAt i).id := rfl

@[simp] theorem ranking_edge (k : ℕ) : view.ranking.edge k = view.linkAt k := rfl

theorem mem_adjacencyRange {node k : ℕ} :
    k ∈ view.adjacencyRange node ↔ view.adjacencyBegin node ≤ k ∧ k < view.adjacencyEnd node := by
  rw [adjacencyRange, List.mem_range'_1]
  omega

/-! ## Well-formed views -/

/-- The rows of the view partition the entries by source node, every row is sorted by destination
identity and link identity, and identities are unique. -/
structure WellFormed : Prop where
  nodeCount_lt : view.nodeCount < 2 ^ 32
  offsets_length : view.offsets.length = view.nodeCount + 1
  offsets_zero : view.offsets.getD 0 0 = 0
  offsets_le : ∀ u < view.nodeCount, view.adjacencyBegin u ≤ view.adjacencyEnd u
  offsets_last : view.offsets.getD view.nodeCount 0 = view.adjacency.length
  target_lt : ∀ k < view.adjacency.length, (view.adjacencyAt k).target < view.nodeCount
  node_injective : ∀ i < view.nodeCount, ∀ j < view.nodeCount,
    (view.nodeAt i).id = (view.nodeAt j).id → i = j
  link_injective : ∀ k < view.adjacency.length, ∀ l < view.adjacency.length,
    view.linkAt k = view.linkAt l → k = l
  rows_sorted : ∀ u < view.nodeCount, (view.adjacencyRange u).Pairwise fun k l =>
    toLex ((view.nodeAt (view.adjacencyAt k).target).id, view.linkAt k) <
      toLex ((view.nodeAt (view.adjacencyAt l).target).id, view.linkAt l)

/-- The traversal cost of an entry is the static cost of its link with the penalties that apply. -/
def CostCoherent : Prop :=
  ∀ k < view.adjacency.length, view.exactIncrement k =
    exactHopCost view.costModel (view.hopCostInput k)

namespace WellFormed

variable {view} (wf : view.WellFormed) {u k l : ℕ} {path : List ℕ}

include wf

theorem offsets_mono {i j : ℕ} (hij : i ≤ j) (hj : j ≤ view.nodeCount) :
    view.offsets.getD i 0 ≤ view.offsets.getD j 0 := by
  induction j with
  | zero => rw [Nat.le_zero.mp hij]
  | succ j ih =>
    rcases hij.lt_or_eq with h | rfl
    · exact (ih (by omega) (by omega)).trans (wf.offsets_le j (by omega))
    · exact le_rfl

/-- The entries of a node are entries of the view, and only nodes of the view have any. -/
theorem lt_of_mem_out (h : k ∈ view.graph.out u) :
    u < view.nodeCount ∧ k < view.adjacency.length := by
  rw [graph_out, mem_adjacencyRange] at h
  have hu : u < view.nodeCount := by
    by_contra hge
    have : view.adjacencyEnd u = 0 := by
      rw [adjacencyEnd, List.getD_eq_getElem?_getD,
        List.getElem?_eq_none (by rw [wf.offsets_length]; omega)]
      rfl
    omega
  refine ⟨hu, h.2.trans_le ?_⟩
  rw [← wf.offsets_last]
  exact wf.offsets_mono (by omega) le_rfl

theorem target_lt_of_mem_out (h : k ∈ view.graph.out u) :
    view.graph.target k < view.nodeCount :=
  wf.target_lt k (wf.lt_of_mem_out h).2

/-- Every entry belongs to the row of exactly one node. -/
theorem eq_of_mem_out {v : ℕ} (hu : k ∈ view.graph.out u) (hv : k ∈ view.graph.out v) : u = v := by
  have hun := (wf.lt_of_mem_out hu).1
  have hvn := (wf.lt_of_mem_out hv).1
  rw [graph_out, mem_adjacencyRange] at hu hv
  rcases lt_trichotomy u v with h | h | h
  · have : view.adjacencyEnd u ≤ view.adjacencyBegin v := wf.offsets_mono (by omega) (by omega)
    omega
  · exact h
  · have : view.adjacencyEnd v ≤ view.adjacencyBegin u := wf.offsets_mono (by omega) (by omega)
    omega

/-- The outgoing entries of every node are in canonical order. -/
theorem sortedOut : view.graph.SortedOut view.ranking := by
  intro u
  by_cases hu : u < view.nodeCount
  · exact wf.rows_sorted u hu
  · have : view.graph.out u = [] := by
      rw [List.eq_nil_iff_forall_not_mem]
      exact fun k hk => hu (wf.lt_of_mem_out hk).1
    rw [this]
    exact List.Pairwise.nil

theorem injectiveTargets : view.graph.InjectiveTargets view.ranking := by
  intro u v e f he hf h
  exact wf.node_injective _ (wf.target_lt_of_mem_out he) _ (wf.target_lt_of_mem_out hf) h

theorem eq_of_edge_eq {v : ℕ} (hk : k ∈ view.graph.out u) (hl : l ∈ view.graph.out v)
    (h : view.linkAt k = view.linkAt l) : k = l :=
  wf.link_injective k (wf.lt_of_mem_out hk).2 l (wf.lt_of_mem_out hl).2 h

/-- A path that leaves a node of the view stays in it. -/
theorem lt_of_mem_nodes (hu : u < view.nodeCount) (h : view.graph.IsWalk u path) :
    ∀ v ∈ view.graph.nodes u path, v < view.nodeCount := by
  induction path generalizing u with
  | nil =>
    intro v hv
    rw [List.mem_singleton.mp hv]
    exact hu
  | cons k path ih =>
    intro v hv
    rcases List.mem_cons.mp hv with rfl | hv
    · exact hu
    · exact ih (wf.target_lt_of_mem_out h.1) h.2 v hv

/-- The entries of a path are entries of the view. -/
theorem lt_of_mem_walk (h : view.graph.IsWalk u path) (hk : k ∈ path) :
    k < view.adjacency.length := by
  obtain ⟨v, -, hv⟩ := h.exists_out hk
  exact (wf.lt_of_mem_out hv).2

/-- A simple path has fewer hops than the view has nodes. -/
theorem length_lt_of_isSimple (hu : u < view.nodeCount) (h : view.graph.IsWalk u path)
    (hs : view.graph.IsSimple u path) : path.length < view.nodeCount := by
  have hlt := hs.length_lt (List.range view.nodeCount) fun v hv =>
    List.mem_range.mpr (wf.lt_of_mem_nodes hu h v hv)
  simpa using hlt

/-- Two paths from one node with the same canonical key are the same path. -/
theorem eq_of_pathKey_eq {v : ℕ} {p q : List ℕ} (hp : view.graph.IsWalk u p)
    (hq : view.graph.IsWalk v q) (h : view.pathKey u p = view.pathKey v q) : p = q := by
  refine Multigraph.Ranking.key_injective ?_ h
  intro e he f hf hl
  obtain ⟨a, -, ha⟩ := hp.exists_out he
  obtain ⟨b, -, hb⟩ := hq.exists_out hf
  exact wf.eq_of_edge_eq ha hb hl

end WellFormed

end PlanningView

end PathPlanner
