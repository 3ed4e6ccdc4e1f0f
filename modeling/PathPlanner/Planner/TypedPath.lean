import PathPlanner.Planner.Compute
import PathPlanner.Search.Sound
import PathPlanner.View.Rows

/-!
# Typed paths of a view

A raw path is turned into a typed path by looking up its nodes and links in the snapshot. For a
simple walk in a view that was built this is always well formed and simple, and the path determines
the walk.

## Main definitions

* `PathHop.IsOf`: a hop that stands for a published edge
* `Candidate.Along`: a candidate for a walk from a node of the view

## Main results

* `exists_edge_of_mem_hops`: every hop is an edge of the snapshot on the requested layer
* `isWellFormed_buildCandidatePath`, `isSimple_buildCandidatePath`: typed paths are well formed and
  simple
* `candidateOf_rawPath`: a simple walk has a candidate exactly when it has a cost
* `Candidate.Along.rankingKey_inj`: the ranking key of a candidate determines its walk
-/

namespace PathPlanner

open Multigraph

/-- The hop stands for the edge: it has the identity, the ends, the ports and the cost of the edge. -/
structure PathHop.IsOf (hop : PathHop) (edge : EdgeRecord) : Prop where
  link : hop.link = edge.id
  source : hop.source = edge.source
  target : hop.target = edge.target
  fromPort : hop.fromPort = edge.fromPort
  toPort : hop.toPort = edge.toPort
  layer : hop.layer = edge.layer
  relationship : hop.relationship = edge.relationship
  structuralGeneration : hop.structuralGeneration = edge.structuralGeneration
  staticCost : hop.staticCost = edge.staticCost

/-- A candidate for the walk along `path` from a node of the view. -/
structure Candidate.Along (view : PlanningView) (u : ℕ) (path : List ℕ) (c : Candidate) : Prop where
  path_eq : c.path = buildCandidatePath view (view.rawPath u path)
  cost_eq : view.computeRawPathCost (view.rawPath u path) = some c.cost

section Typed

variable {view : PlanningView} {u : ℕ} {path : List ℕ}

/-- The typed path of a walk. -/
theorem buildCandidatePath_rawPath : buildCandidatePath view (view.rawPath u path) =
    { source := (view.nodeAt u).id
      destination := (view.nodeAt (view.graph.finish u path)).id
      layer := view.layer
      nodes := (view.graph.nodes u path).map fun i => (view.nodeAt i).id
      hops := path.map (buildHop view) } := by
  have hlast : (view.graph.nodes u path).getLast? = some (view.graph.finish u path) := by
    rw [nodes_eq_dropLast_append, List.getLast?_concat]
  have hfirst : (view.graph.nodes u path).head? = some u := rfl
  unfold buildCandidatePath PlanningView.rawPath
  simp only [hlast, hfirst]

@[simp] theorem nodes_buildCandidatePath :
    (buildCandidatePath view (view.rawPath u path)).nodes =
      (view.graph.nodes u path).map fun i => (view.nodeAt i).id := by
  rw [buildCandidatePath_rawPath]

@[simp] theorem hops_buildCandidatePath :
    (buildCandidatePath view (view.rawPath u path)).hops = path.map (buildHop view) := by
  rw [buildCandidatePath_rawPath]

@[simp] theorem source_buildCandidatePath :
    (buildCandidatePath view (view.rawPath u path)).source = (view.nodeAt u).id := by
  rw [buildCandidatePath_rawPath]

@[simp] theorem destination_buildCandidatePath :
    (buildCandidatePath view (view.rawPath u path)).destination =
      (view.nodeAt (view.graph.finish u path)).id := by
  rw [buildCandidatePath_rawPath]

theorem buildHop_isOf (k : ℕ) :
    (buildHop view k).IsOf (view.edgeAt (view.adjacencyAt k).edge) :=
  ⟨rfl, rfl, rfl, rfl, rfl, rfl, rfl, rfl, rfl⟩

variable {snapshot : FabricSnapshot} {request : PlanningRequest} {limits : ResourceLimits}
  (hv : IsCheckedView snapshot request limits view)

include hv

theorem IsCheckedView.layer_eq : view.layer = request.constraints.layer :=
  congrArg ViewSettings.layer hv.settings

/-- **Every hop** is an edge of the snapshot on the requested layer. -/
theorem exists_edge_of_mem_hops (hw : view.graph.IsWalk u path) {hop : PathHop}
    (hh : hop ∈ path.map (buildHop view)) : ∃ k ∈ path, k < view.adjacency.length ∧
      hop = buildHop view k ∧ view.edgeAt (view.adjacencyAt k).edge ∈ snapshot.edges := by
  obtain ⟨k, hk, rfl⟩ := List.mem_map.mp hh
  have hlt := hv.wellFormed.lt_of_mem_walk hw hk
  exact ⟨k, hk, hlt, rfl, hv.edge_mem hlt⟩

/-- The hops of a walk join its nodes. -/
theorem hopsAgree_of_isWalk (hw : view.graph.IsWalk u path) : CandidatePath.hopsAgree view.layer
    ((view.graph.nodes u path).map fun i => (view.nodeAt i).id) (path.map (buildHop view)) = true := by
  induction path generalizing u with
  | nil => rfl
  | cons k path ih =>
    obtain ⟨hk, hw⟩ := hw
    obtain ⟨hu, hlt⟩ := hv.wellFormed.lt_of_mem_out hk
    have hedge := hv.edge_mem hlt
    have hsource := (hv.mem_row_iff u hu k hlt).mp hk
    have htarget := (hv.target k hlt).2
    obtain ⟨hlink, hfrom, hto⟩ := snapshot.edges_valid _ hedge
    have hlayer := (hv.layer k hlt).trans hv.layer_eq.symm
    have hrest := ih hw
    -- the first hop leaves the first node, and the others follow
    change CandidatePath.hopsAgree view.layer ((view.nodeAt u).id ::
      (view.nodeAt (view.adjacencyAt k).target).id ::
        (path.map view.graph.target).map fun i => (view.nodeAt i).id)
      (buildHop view k :: path.map (buildHop view)) = true
    unfold CandidatePath.hopsAgree
    simp only [buildHop, hsource, htarget, hlayer, hlink, hfrom, hto, decide_true, Bool.true_and]
    rw [← htarget]
    exact hrest

/-- **Typed paths are well formed.** -/
theorem isWellFormed_buildCandidatePath (hu : u < view.nodeCount) (hw : view.graph.IsWalk u path) :
    (buildCandidatePath view (view.rawPath u path)).isWellFormed = true := by
  have hvalid : ∀ i < view.nodeCount, (view.nodeAt i).id.isValid = true := fun i hi =>
    snapshot.nodes_valid _ (hv.node_mem i hi)
  have hfinish := hvalid _ (hv.wellFormed.lt_of_mem_nodes hu hw _ finish_mem_nodes)
  have hlast : ((view.graph.nodes u path).map fun i => (view.nodeAt i).id).getLast? =
      some (view.nodeAt (view.graph.finish u path)).id := by
    rw [List.getLast?_map, nodes_eq_dropLast_append, List.getLast?_concat]
    rfl
  rw [buildCandidatePath_rawPath]
  simp only [CandidatePath.isWellFormed, hvalid u hu, hfinish, hlast, hopsAgree_of_isWalk hv hw,
    List.length_map, length_nodes]
  simp [nodes]

/-- **Typed paths of simple walks are simple.** -/
theorem isSimple_buildCandidatePath (hu : u < view.nodeCount) (hw : view.graph.IsWalk u path)
    (hs : view.graph.IsSimple u path) :
    (buildCandidatePath view (view.rawPath u path)).nodes.Nodup := by
  rw [nodes_buildCandidatePath]
  refine List.Nodup.map_on (fun i hi j hj he => ?_) hs
  exact hv.node_injective i (hv.wellFormed.lt_of_mem_nodes hu hw i hi) j
    (hv.wellFormed.lt_of_mem_nodes hu hw j hj) he

/-- **A simple walk** has a candidate exactly when it has a cost. -/
theorem candidateOf_rawPath (sha : List UInt8 → Sha256Digest) (hu : u < view.nodeCount)
    (hw : view.graph.IsWalk u path) (hs : view.graph.IsSimple u path) :
    candidateOf sha view (view.rawPath u path) =
      (view.computeRawPathCost (view.rawPath u path)).map fun cost =>
        { id := (buildCandidatePath view (view.rawPath u path)).id sha
          path := buildCandidatePath view (view.rawPath u path)
          cost } := by
  unfold candidateOf
  simp only [isWellFormed_buildCandidatePath hv hu hw,
    CandidatePath.isSimple_iff.mpr (isSimple_buildCandidatePath hv hu hw hs)]
  cases view.computeRawPathCost (view.rawPath u path) <;> rfl

/-- The links of a walk determine it. -/
theorem eq_of_links_eq {v : ℕ} {other : List ℕ} (hw : view.graph.IsWalk u path)
    (ho : view.graph.IsWalk v other) (h : path.map view.linkAt = other.map view.linkAt) :
    path = other :=
  Ranking.eq_of_map_edge_eq (fun _ he _ hf => hv.wellFormed.link_injective _
    (hv.wellFormed.lt_of_mem_walk hw he) _ (hv.wellFormed.lt_of_mem_walk ho hf))
    (show path.map view.ranking.edge = other.map view.ranking.edge from h)

/-- **The ranking key** of a candidate determines its walk. -/
theorem Candidate.Along.rankingKey_inj {v : ℕ} {other : List ℕ} {a b : Candidate}
    (ha : a.Along view u path) (hb : b.Along view v other) (hw : view.graph.IsWalk u path)
    (ho : view.graph.IsWalk v other) (h : a.rankingKey = b.rankingKey) : path = other := by
  refine eq_of_links_eq hv hw ho ?_
  have hlinks := (Prod.mk.inj (toLex.injective (Prod.mk.inj (toLex.injective
    (Prod.mk.inj (toLex.injective h)).2)).2)).2
  rw [ha.path_eq, hb.path_eq, hops_buildCandidatePath, hops_buildCandidatePath, List.map_map,
    List.map_map] at hlinks
  exact hlinks

end Typed

end PathPlanner
