import PathPlanner.Library.EdgeList
import PathPlanner.Snapshot.Fabric
import PathPlanner.Synthetic.Random

/-!
# Synthetic topologies

The generator drafts a topology for each family: the edges are pushed one after the other, under the
ceilings of the options, and the degrees are counted along.

## Main definitions

* `SyntheticOptions`: a request for a synthetic fabric
* `ringEdges`, `diamondEdges` and the like: the edges of a family, in their order
* `draftOf`: the draft of each family
* `buildTopology`: `BuildTopology`

## Main results

* `pushEdges_eq_ok`: a topology that is accepted has the edges of its family
-/

namespace PathPlanner

/-! ## Options -/

/-- `SyntheticFamily`. -/
inductive SyntheticFamily
  | chain
  | ring
  | diamond
  | leafSpine
  | fatTree
  | mesh
  | disconnected
  | oneWay
  | parallelEqualCost
  | tieStorm
  | highDegreeHub
  | deepChain
  | sparseLarge
  | denseBounded
  | undeclared (raw : UInt32) (h : raw = 0 ∨ 14 < raw)
  deriving DecidableEq

/-- The underlying number. -/
def SyntheticFamily.value : SyntheticFamily → ℕ
  | .chain => 1
  | .ring => 2
  | .diamond => 3
  | .leafSpine => 4
  | .fatTree => 5
  | .mesh => 6
  | .disconnected => 7
  | .oneWay => 8
  | .parallelEqualCost => 9
  | .tieStorm => 10
  | .highDegreeHub => 11
  | .deepChain => 12
  | .sparseLarge => 13
  | .denseBounded => 14
  | .undeclared raw _ => raw.toNat

/-- `SyntheticOptions`. -/
structure SyntheticOptions where
  family : SyntheticFamily := .leafSpine
  seed : BitVec 64 := 1
  nodes : UInt32 := 16
  extraEdges : UInt32 := 0
  layers : UInt32 := 4
  layer : PathLayer := .physical
  staticCostBase : UInt32 := 1
  staticCostSpread : UInt32 := 1
  percentDown : UInt32 := 0
  percentDegraded : UInt32 := 0
  percentUnknown : UInt32 := 0
  percentPortDisabled : UInt32 := 0
  percentWithoutLinkStateRecord : UInt32 := 0
  capabilityBindings : UInt32 := 1
  failureDomains : UInt32 := 2
  membershipComplete : Bool := true
  limits : ResourceLimits := {}

/-- `NormalizeNodeCount`. -/
def normalizeNodeCount (requested : UInt32) : ℕ := if requested < 2 then 2 else requested.toNat

/-! ## Drafts -/

/-- `EdgeDraft`: the node that an edge leaves and the one that it enters. -/
abbrev EdgeDraft := ℕ × ℕ

/-- `Topology`. -/
structure Topology where
  nodeCount : ℕ := 0
  source : ℕ := 0
  destination : ℕ := 0
  uniformCost : Bool := false
  edges : List EdgeDraft := []
  degree : List ℕ := []

/-- `PushEdge`. -/
def pushEdge (limits : ResourceLimits) (topology : Topology) (edge : EdgeDraft) :
    Except BuildError Topology :=
  if topology.edges.length ≥ limits.maxEdges.toNat then
    .error ⟨.tooManyEdges, "synthetic fabric exceeds max_edges"⟩
  else if topology.degree.getD edge.1 0 + 1 > limits.maxPortsPerNode.toNat ∨
      topology.degree.getD edge.2 0 + 1 > limits.maxPortsPerNode.toNat then
    .error ⟨.graphTooLarge, "synthetic fabric exceeds max_ports_per_node"⟩
  else
    .ok { topology with
      edges := topology.edges ++ [edge]
      degree := (topology.degree.modify edge.1 (· + 1)).modify edge.2 (· + 1) }

/-- The edges are pushed in their order, up to the first one that is rejected. -/
def pushEdges (limits : ResourceLimits) (topology : Topology) (edges : List EdgeDraft) :
    Except BuildError Topology :=
  edges.foldlM (pushEdge limits) topology

/-! ## Families -/

/-- `BuildChainEdges`. -/
def chainEdges (count : ℕ) : List EdgeDraft := (List.range (count - 1)).map fun i => (i, i + 1)

/-- The edges of `kRing`. -/
def ringEdges (n : ℕ) : List EdgeDraft :=
  (List.range n).map fun i => (i, if i + 1 = n then 0 else i + 1)

/-- A route of `kDiamond`: from the previous node over the nodes of the route to the destination. -/
def routeEdges (destination : ℕ) : ℕ → List ℕ → List EdgeDraft
  | previous, [] => [(previous, destination)]
  | previous, node :: nodes => (previous, node) :: routeEdges destination node nodes

/-- The edges of `kDiamond`. -/
def diamondEdges (n : ℕ) : List EdgeDraft :=
  if n < 4 then chainEdges n
  else
    let middle := n - 2
    let split := 1 + (middle + 1) / 2
    routeEdges (n - 1) 0 (List.range' 1 (split - 1)) ++
      routeEdges (n - 1) 0 (List.range' split (n - 1 - split))

/-- Each node of a tier leads to each node of the next one. -/
def tierEdges (base size next nextSize : ℕ) : List EdgeDraft :=
  List.range' base size ×ˢ List.range' next nextSize

/-- The spines of `kLeafSpine`. -/
def leafSpineSpines (n : ℕ) (layers : UInt32) : ℕ := max 1 (n / min (max layers.toNat 2) 8)

/-- The edges of `kLeafSpine`. -/
def leafSpineEdges (n : ℕ) (layers : UInt32) : List EdgeDraft :=
  let spines := leafSpineSpines n layers
  let leaves := n - spines
  tierEdges 0 leaves leaves spines

/-- The edges of `kFatTree`. -/
def fatTreeEdges (n : ℕ) (layers : UInt32) : List EdgeDraft :=
  if n < 4 then chainEdges n
  else
    let coreTier : Bool := layers ≥ 4
    let leaves := max 1 (n / 4)
    let aggregates := max 1 (n / 4)
    let spines := if coreTier then max 1 (n / 4) else n - leaves - aggregates
    let cores := if coreTier then n - leaves - aggregates - spines else 0
    let aggregateBase := leaves
    let spineBase := leaves + aggregates
    let coreBase := spineBase + spines
    tierEdges 0 leaves aggregateBase aggregates ++
      tierEdges aggregateBase aggregates spineBase spines ++
      tierEdges spineBase spines coreBase cores

/-- The edges of `kMesh` and of `kDenseBounded`: chords of increasing distance. The sum has 32 bits. -/
def chordEdges (n requested : ℕ) : List EdgeDraft :=
  if n < 4 then chainEdges n
  else
    let distance := min requested ((n - 1) / 2)
    (List.range n).flatMap fun i =>
      (List.range' 1 distance).map fun step => (i, (i + step) % 2 ^ 32 % n)

/-- The number of components of `kDisconnected`. -/
def componentCount (n : ℕ) : ℕ := min n (max 2 (n / 4))

/-- The size of a component. -/
def componentSize (n component : ℕ) : ℕ :=
  n / componentCount n + if component < n % componentCount n then 1 else 0

/-- The loop over the components of `kDisconnected`, from one that starts at a node. -/
def componentEdges (n start : ℕ) : List ℕ → List EdgeDraft
  | [] => []
  | component :: components =>
    (List.range (componentSize n component - 1)).map (fun i => (start + i, start + i + 1)) ++
      componentEdges n (start + componentSize n component) components

/-- The edges of `kParallelEqualCost`. -/
def parallelEdges (n : ℕ) : List EdgeDraft :=
  let parallel := if n = 2 then 2 else min 8 (max 2 (n / 4))
  List.replicate parallel (0, 1) ++ (List.range' 1 (n - 2)).map fun i => (i, i + 1)

/-- The edges of `kTieStorm`. -/
def tieStormEdges (n : ℕ) : List EdgeDraft :=
  if n = 2 then [(0, 1)]
  else (List.range' 1 (n - 2)).flatMap fun middle => [(0, middle), (middle, n - 1)]

/-- The edges of `kHighDegreeHub`. -/
def hubEdges (n : ℕ) : List EdgeDraft := (List.range' 1 (n - 1)).map fun spoke => (0, spoke)

/-- The order of `kDeepChain`: a shuffle from the end to the front. -/
def deepChainOrder (n : ℕ) (seed : BitVec 64) : Array ℕ :=
  ((List.range' 1 (n - 1)).reverse.foldl (fun (order, shuffle) i =>
    let (j, shuffle) := SeededRandom.below shuffle (.ofNat (i + 1))
    (order.swapIfInBounds i j, shuffle))
    (Array.range n, SeededRandom.mk (seed ^^^ 0x5DEECE66D))).1

/-- The edges of `kDeepChain`. -/
def deepChainEdges (order : Array ℕ) : List EdgeDraft :=
  (List.range (order.size - 1)).map fun i => (order.getD i 0, order.getD (i + 1) 0)

/-- The edges of `kSparseLarge`. -/
def treeEdges (n : ℕ) : List EdgeDraft := (List.range' 1 (n - 1)).map fun i => ((i - 1) / 2, i)

/-- What a family drafts. -/
structure FamilyDraft where
  source : ℕ := 0
  destination : ℕ
  uniformCost : Bool := false
  edges : List EdgeDraft

/-- The families of `BuildTopology`. -/
def draftOf (options : SyntheticOptions) (n : ℕ) : Except BuildError FamilyDraft :=
  match options.family with
  | .chain => .ok { destination := n - 1, edges := chainEdges n }
  | .ring => .ok { destination := n / 2, edges := ringEdges n }
  | .diamond => .ok { destination := n - 1, edges := diamondEdges n }
  | .leafSpine =>
    .ok { destination := n - leafSpineSpines n options.layers
          edges := leafSpineEdges n options.layers }
  | .fatTree => .ok { destination := n - 1, edges := fatTreeEdges n options.layers }
  | .mesh => .ok { destination := n / 2, edges := chordEdges n (2 + options.extraEdges.toNat) }
  | .disconnected =>
    .ok { destination := componentSize n 0
          edges := componentEdges n 0 (List.range (componentCount n)) }
  | .oneWay => .ok { destination := n - 1, edges := chainEdges n }
  | .parallelEqualCost =>
    .ok { destination := n - 1, uniformCost := true, edges := parallelEdges n }
  | .tieStorm => .ok { destination := n - 1, uniformCost := true, edges := tieStormEdges n }
  | .highDegreeHub => .ok { destination := n - 1, edges := hubEdges n }
  | .deepChain =>
    let order := deepChainOrder n options.seed
    .ok { source := order.getD 0 0
          destination := order.getD (order.size - 1) 0
          edges := deepChainEdges order }
  | .sparseLarge => .ok { destination := n - 1, edges := treeEdges n }
  | .denseBounded =>
    .ok { destination := n / 2, edges := chordEdges n (8 + options.extraEdges.toNat) }
  | .undeclared raw _ =>
    .error ⟨.unsupportedRequest, "unsupported synthetic family " ++ toString raw.toNat⟩

/-- `BuildTopology`. -/
def buildTopology (options : SyntheticOptions) : Except BuildError Topology :=
  let n := normalizeNodeCount options.nodes
  if n > options.limits.maxNodes.toNat then
    .error ⟨.graphTooLarge, "synthetic fabric requires " ++ toString n ++ " nodes but max_nodes is " ++
      toString options.limits.maxNodes.toNat⟩
  else do
    let draft ← draftOf options n
    pushEdges options.limits
      { nodeCount := n
        source := draft.source
        destination := draft.destination
        uniformCost := draft.uniformCost
        degree := List.replicate n 0 } draft.edges

/-! ## Pushing edges -/

variable {limits : ResourceLimits} {topology topology' : Topology} {edges : List EdgeDraft}
  {edge : EdgeDraft}

/-- A step that succeeded, and what it went on with. -/
theorem bind_eq_ok_iff {ε α β : Type} {x : Except ε α} {f : α → Except ε β} {b : β} :
    (x >>= f) = .ok b ↔ ∃ a, x = .ok a ∧ f a = .ok b := by
  cases x with
  | error e => exact ⟨nofun, fun ⟨_, h, _⟩ => nomatch h⟩
  | ok a =>
    constructor
    · exact fun h => ⟨a, rfl, h⟩
    · rintro ⟨_, h, hf⟩
      obtain rfl := Except.ok.inj h
      exact hf

/-- A counter is incremented. -/
theorem getD_modify_succ {l : List ℕ} {i v : ℕ} (hv : v < l.length) :
    (l.modify i (· + 1)).getD v 0 = l.getD v 0 + if i = v then 1 else 0 := by
  rw [List.getD_eq_getElem?_getD, List.getElem?_modify, List.getD_eq_getElem?_getD,
    List.getElem?_eq_getElem hv]
  split_ifs <;> rfl

theorem pushEdge_eq_ok (h : pushEdge limits topology edge = .ok topology') :
    topology.edges.length < limits.maxEdges.toNat ∧ topology' = { topology with
      edges := topology.edges ++ [edge]
      degree := (topology.degree.modify edge.1 (· + 1)).modify edge.2 (· + 1) } := by
  unfold pushEdge at h
  split_ifs at h with hedges
  exact ⟨not_le.mp hedges, (Except.ok.inj h).symm⟩

/-- The topology stands as it was drafted: its edges are within the ceiling, and the degrees are
counted. -/
structure Topology.IsCounted (topology : Topology) (limits : ResourceLimits) : Prop where
  edges_length : topology.edges.length ≤ limits.maxEdges.toNat
  degree_length : topology.degree.length = topology.nodeCount
  degree_eq : ∀ v < topology.nodeCount, topology.degree.getD v 0 = EdgeList.degree topology.edges v

theorem Topology.IsCounted.pushEdge (ht : topology.IsCounted limits)
    (h : PathPlanner.pushEdge limits topology edge = .ok topology') : topology'.IsCounted limits := by
  obtain ⟨hroom, rfl⟩ := pushEdge_eq_ok h
  refine ⟨?_, ?_, fun v hv => ?_⟩
  · rw [List.length_append, List.length_singleton]
    exact hroom
  · rw [List.length_modify, List.length_modify]
    exact ht.degree_length
  · have hlt : v < topology.degree.length := ht.degree_length ▸ hv
    dsimp only
    rw [getD_modify_succ (by rwa [List.length_modify]), getD_modify_succ hlt, ht.degree_eq v hv,
      EdgeList.degree_concat]

/-- **An accepted topology** has all the edges, in their order. -/
theorem pushEdges_eq_ok (ht : topology.IsCounted limits)
    (h : pushEdges limits topology edges = .ok topology') :
    topology'.IsCounted limits ∧ topology'.edges = topology.edges ++ edges ∧
      topology'.nodeCount = topology.nodeCount ∧ topology'.source = topology.source ∧
      topology'.destination = topology.destination := by
  induction edges generalizing topology with
  | nil =>
    obtain rfl := Except.ok.inj h
    exact ⟨ht, (List.append_nil _).symm, rfl, rfl, rfl⟩
  | cons edge edges ih =>
    unfold pushEdges at h
    rw [List.foldlM_cons] at h
    obtain ⟨next, hnext, hrest⟩ := bind_eq_ok_iff.mp h
    obtain ⟨hcounted, hedges, hcount, hsource, hdestination⟩ := ih (ht.pushEdge hnext) hrest
    obtain ⟨-, rfl⟩ := pushEdge_eq_ok hnext
    refine ⟨hcounted, ?_, hcount, hsource, hdestination⟩
    rw [hedges, List.append_assoc]
    rfl

end PathPlanner
