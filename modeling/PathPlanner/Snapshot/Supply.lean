import PathPlanner.Library.Admission
import PathPlanner.Snapshot.Completeness

/-!
# What a builder keeps of its supply

Nodes, edges and endpoints are supplied one by one. A record that passes the checks is kept until the
limit of its kind is reached, so that a builder keeps the first ones that are acceptable. Structural
generations are compared with the topology generation of the moment, which is therefore part of what
is supplied. Everything else is the last value that was set.

## Main definitions

* `BuilderCall.offered`: the records that calls supply, each with the topology of the moment
* `acceptsNode`, `acceptsEdge`, `acceptsEndpoint`: the checks, but for the limit
* `FabricSnapshotBuilder.ofCalls`: the builder after some calls

## Main results

* `FabricSnapshotBuilder.Keeps.ofCalls_eq`: **a builder keeps the first acceptable records**
* `FabricSnapshotBuilder.settings_ofCalls`: the rest is what was set last
-/

namespace PathPlanner

open SortedList Admission

/-! ## Offers -/

namespace BuilderCall

/-- The node that is supplied by a call. -/
def node? : BuilderCall → Option NodeRecord
  | .addNode node => some node
  | _ => none

/-- The edge that is supplied by a call. -/
def edge? : BuilderCall → Option EdgeRecord
  | .addEdge edge => some edge
  | _ => none

/-- The endpoint that is supplied by a call. -/
def endpoint? : BuilderCall → Option EndpointRecord
  | .addEndpoint endpoint => some endpoint
  | _ => none

/-- The topology generation after a call. -/
def topologyAfter (topology : TopologyGeneration) : BuilderCall → TopologyGeneration
  | .setGenerations generations => generations.topology
  | _ => topology

/-- The records of one kind that calls supply, each with the topology generation of the moment. -/
def offered {α : Type} (record : BuilderCall → Option α) :
    TopologyGeneration → List BuilderCall → List (α × TopologyGeneration)
  | _, [] => []
  | topology, call :: calls =>
    ((record call).map fun a => (a, topology)).toList ++
      offered record (call.topologyAfter topology) calls

/-- The records of one kind that calls supply to a new builder. -/
def supplied {α : Type} (record : BuilderCall → Option α) (calls : List BuilderCall) :
    List (α × TopologyGeneration) :=
  offered record default calls

section Offers

variable {α : Type} {record : BuilderCall → Option α} {topology : TopologyGeneration}
  {calls : List BuilderCall}

theorem offered_append (before after : List BuilderCall) :
    offered record topology (before ++ after) = offered record topology before ++
      offered record (before.foldl topologyAfter topology) after := by
  induction before generalizing topology with
  | nil => rfl
  | cons call before ih =>
    rw [List.cons_append, offered, offered, List.foldl_cons, ih, List.append_assoc]

theorem offered_eq_nil (h : ∀ call ∈ calls, record call = none) :
    offered record topology calls = [] := by
  induction calls generalizing topology with
  | nil => rfl
  | cons call calls ih =>
    rw [offered, h call List.mem_cons_self, ih fun c hc => h c (List.mem_cons_of_mem _ hc)]
    rfl

/-- The calls that supply records, each at a given topology generation. -/
def offering (add : α → BuilderCall) (offers : List (α × TopologyGeneration)) :
    List BuilderCall :=
  offers.flatMap fun o => [.setGenerations { topology := o.2 }, add o.1]

variable (record) in
theorem offered_offering {add : α → BuilderCall} (offers : List (α × TopologyGeneration))
    (hadd : ∀ a, record (add a) = some a)
    (hset : ∀ generations, record (.setGenerations generations) = none) :
    offered record topology (offering add offers) = offers := by
  induction offers generalizing topology with
  | nil => rfl
  | cons o offers ih =>
    change offered record topology (_ :: _ :: offering add offers) = _
    rw [offered, offered, hset, hadd, ih]
    rfl

variable (record) in
theorem offered_offering_eq_nil {β : Type} {add : β → BuilderCall}
    (offers : List (β × TopologyGeneration)) (hadd : ∀ b, record (add b) = none)
    (hset : ∀ generations, record (.setGenerations generations) = none) :
    offered record topology (offering add offers) = [] := by
  refine offered_eq_nil fun call hcall => ?_
  obtain ⟨o, -, hcall⟩ := List.mem_flatMap.mp hcall
  rcases List.mem_pair.mp hcall with rfl | rfl
  · exact hset _
  · exact hadd _

end Offers

end BuilderCall

/-! ## Checks -/

section Checks

variable (limits : ResourceLimits)

/-- The checks of `AddNode`, but for the limit on nodes. -/
def acceptsNode (offer : NodeRecord × TopologyGeneration) : Bool :=
  offer.1.id.isValid && !offer.1.ports.any (fun port => !port.isValid) &&
    !exceeds offer.1.ports.length limits.maxPortsPerNode && !hasDuplicate offer.1.ports &&
    !decide (offer.1.structuralGeneration.value > offer.2.value)

/-- The checks of `AddEdge`, but for the limit on edges. -/
def acceptsEdge (offer : EdgeRecord × TopologyGeneration) : Bool :=
  !(!offer.1.id.isValid || !offer.1.source.isValid || !offer.1.target.isValid ||
      !offer.1.fromPort.isValid || !offer.1.toPort.isValid) &&
    !decide (offer.1.source = offer.1.target) &&
    relationshipMatchesLayer offer.1.relationship offer.1.layer &&
    !decide (offer.1.structuralGeneration.value > offer.2.value)

/-- The checks of `AddEndpoint`, but for the limit on endpoints. -/
def acceptsEndpoint (endpoint : EndpointRecord) : Bool :=
  !(!endpoint.id.isValid || !endpoint.node.isValid || !endpoint.port.isValid)

/-- A node as it is stored: with its ports sorted. -/
def storedNode (node : NodeRecord) : NodeRecord := { node with ports := sortBy id node.ports }

variable {limits}

/-- The checks of a node do not depend on the order of its ports. -/
theorem acceptsNode_storedNode (node : NodeRecord) (topology : TopologyGeneration) :
    acceptsNode limits (storedNode node, topology) = acceptsNode limits (node, topology) := by
  have hperm := perm_sortBy id node.ports
  have hany : (sortBy id node.ports).any (fun port => !port.isValid) =
      node.ports.any fun port => !port.isValid := by
    rw [Bool.eq_iff_iff, List.any_eq_true, List.any_eq_true]
    exact exists_congr fun port => and_congr_left' hperm.mem_iff
  have hduplicate : hasDuplicate (sortBy id node.ports) = hasDuplicate node.ports := by
    rw [Bool.eq_iff_iff, ← not_iff_not, Bool.not_eq_true, Bool.not_eq_true,
      hasDuplicate_eq_false_iff, hasDuplicate_eq_false_iff]
    exact hperm.nodup_iff
  unfold acceptsNode storedNode
  dsimp only
  rw [hany, hduplicate, length_sortBy]

end Checks

namespace FabricSnapshotBuilder

variable {b : FabricSnapshotBuilder} {limits : ResourceLimits} {calls : List BuilderCall}

/-- A check that is passed leaves the next ones. -/
theorem ite_some_eq_none_iff {α : Type} {failed : Prop} [Decidable failed] {error : α}
    {next : Option α} :
    (if failed then some error else next) = none ↔ ¬ failed ∧ next = none := by
  split_ifs with h
  · simp [h]
  · simp [h]

theorem exceeds_succ_eq_false_iff {length : ℕ} {limit : UInt32} :
    exceeds (length + 1) limit = false ↔ length < limit.toNat := by
  unfold exceeds
  rw [decide_eq_false_iff_not, not_lt, Nat.succ_le_iff]

theorem nodeError_eq_none_iff {node : NodeRecord} : b.nodeError node = none ↔
    acceptsNode b.limits (node, b.generations.topology) = true ∧
      b.nodes.length < b.limits.maxNodes.toNat := by
  unfold nodeError acceptsNode
  simp only [ite_some_eq_none_iff, exceeds_succ_eq_false_iff, and_true, Bool.and_eq_true,
    Bool.not_eq_true', decide_eq_false_iff_not, Bool.not_eq_true, Bool.not_eq_false, and_assoc]
  tauto

theorem edgeError_eq_none_iff {edge : EdgeRecord} : b.edgeError edge = none ↔
    acceptsEdge (edge, b.generations.topology) = true ∧
      b.edges.length < b.limits.maxEdges.toNat := by
  unfold edgeError acceptsEdge
  simp only [ite_some_eq_none_iff, exceeds_succ_eq_false_iff, and_true, Bool.and_eq_true,
    Bool.not_eq_true', decide_eq_false_iff_not, Bool.not_eq_true, Bool.not_eq_false, and_assoc]
  tauto

theorem endpointError_eq_none_iff {endpoint : EndpointRecord} :
    b.endpointError endpoint = none ↔
      acceptsEndpoint endpoint = true ∧
        b.endpoints.length < b.limits.maxEndpoints.toNat := by
  unfold endpointError acceptsEndpoint
  simp only [ite_some_eq_none_iff, exceeds_succ_eq_false_iff, and_true, Bool.not_eq_true',
    Bool.not_eq_true]
  tauto

theorem limits_perform (call : BuilderCall) : (b.perform call).limits = b.limits := by
  cases call with
  | addNode node =>
    show (b.addNode node).limits = b.limits
    unfold addNode
    split <;> rfl
  | addEdge edge =>
    show (b.addEdge edge).limits = b.limits
    unfold addEdge
    split <;> rfl
  | addEndpoint endpoint =>
    show (b.addEndpoint endpoint).limits = b.limits
    unfold addEndpoint
    split <;> rfl
  | _ => rfl

theorem topology_perform (call : BuilderCall) :
    (b.perform call).generations.topology = call.topologyAfter b.generations.topology := by
  cases call with
  | addNode node =>
    have hsame := (addNode_frame (b := b) node).1.generations
    exact congrArg SnapshotGenerations.topology hsame
  | addEdge edge =>
    have hsame := (addEdge_frame (b := b) edge).1.generations
    exact congrArg SnapshotGenerations.topology hsame
  | addEndpoint endpoint =>
    have hsame := (addEndpoint_frame (b := b) endpoint).1.generations
    exact congrArg SnapshotGenerations.topology hsame
  | _ => rfl

/-! ## What is kept -/

/-- The builder after some calls. -/
def ofCalls (limits : ResourceLimits) (calls : List BuilderCall) : FabricSnapshotBuilder :=
  calls.foldl perform (new limits)

/-- A part of the builder holds the records of one kind that are accepted, up to a bound. -/
structure Keeps {α β : Type} (part : FabricSnapshotBuilder → List β)
    (record : BuilderCall → Option α)
    (accepts : ResourceLimits → α × TopologyGeneration → Bool) (form : α → β)
    (bound : ResourceLimits → ℕ) : Prop where
  new (limits : ResourceLimits) : part (new limits) = []
  length (b : FabricSnapshotBuilder) : (part b).length ≤ bound b.limits
  none (b : FabricSnapshotBuilder) (call : BuilderCall) :
    record call = none → part (b.perform call) = part b
  some (b : FabricSnapshotBuilder) (call : BuilderCall) (a : α) : record call = some a →
    part (b.perform call) = if accepts b.limits (a, b.generations.topology) = true ∧
      (part b).length < bound b.limits then part b ++ [form a] else part b

section Kept

variable {α β : Type} {part : FabricSnapshotBuilder → List β} {record : BuilderCall → Option α}
  {accepts : ResourceLimits → α × TopologyGeneration → Bool} {form : α → β}
  {bound : ResourceLimits → ℕ}

/-- **More calls** add the first acceptable records for which there is room. -/
theorem Keeps.foldl_eq (h : Keeps part record accepts form bound) :
    part (calls.foldl perform b) = (part b ++ eligible (accepts b.limits) (fun o => form o.1)
      (BuilderCall.offered record b.generations.topology calls)).take (bound b.limits) := by
  induction calls generalizing b with
  | nil =>
    show part b = (part b ++ []).take _
    rw [List.append_nil, List.take_of_length_le (h.length b)]
  | cons call calls ih =>
    rw [List.foldl_cons, ih, limits_perform, topology_perform, BuilderCall.offered]
    cases hrecord : record call with
    | none => rw [h.none b call hrecord]; rfl
    | some a =>
      rw [h.some b call a hrecord]
      exact (take_append_eligible_cons (f := fun o => form o.1) (h.length b)
        (a, b.generations.topology)).symm

/-- **A builder keeps the first acceptable records** of its supply. -/
theorem Keeps.ofCalls_eq (h : Keeps part record accepts form bound) :
    part (ofCalls limits calls) = admitted (accepts limits) (fun o => form o.1) (bound limits)
      (BuilderCall.supplied record calls) := by
  have hkept := @Keeps.foldl_eq (.new limits) calls _ _ part record accepts form bound h
  rwa [h.new, List.nil_append] at hkept

end Kept

theorem keeps_nodes : Keeps (·.nodes) BuilderCall.node? acceptsNode storedNode (·.maxNodes.toNat) where
  new _ := rfl
  length b := b.nodes_length
  none b call hrecord := by
    cases call with
    | addNode node => cases hrecord
    | addEdge edge => exact (addEdge_frame edge).2
    | addEndpoint endpoint => exact (addEndpoint_frame endpoint).2.1
    | _ => rfl
  some b call node hrecord := by
    cases call with
    | addNode node' =>
      obtain rfl := Option.some.inj hrecord
      show (b.addNode node').nodes = _
      rw [← if_congr nodeError_eq_none_iff rfl rfl]
      unfold addNode
      split
      · next hsome => rw [if_neg (hsome ▸ Option.some_ne_none _)]; rfl
      · next hnone => rw [if_pos hnone]; rfl
    | _ => cases hrecord

theorem keeps_edges :
    Keeps (·.edges) BuilderCall.edge? (fun _ => acceptsEdge) id (·.maxEdges.toNat) where
  new _ := rfl
  length b := b.edges_length
  none b call hrecord := by
    cases call with
    | addNode node => exact (addNode_frame node).2
    | addEdge edge => cases hrecord
    | addEndpoint endpoint => exact (addEndpoint_frame endpoint).2.2
    | _ => rfl
  some b call edge hrecord := by
    cases call with
    | addEdge edge' =>
      obtain rfl := Option.some.inj hrecord
      show (b.addEdge edge').edges = _
      rw [← if_congr edgeError_eq_none_iff rfl rfl]
      unfold addEdge
      split
      · next hsome => rw [if_neg (hsome ▸ Option.some_ne_none _)]; rfl
      · next hnone => rw [if_pos hnone]; rfl
    | _ => cases hrecord

theorem keeps_endpoints :
    Keeps (·.endpoints) BuilderCall.endpoint? (fun _ o => acceptsEndpoint o.1) id
      (·.maxEndpoints.toNat) where
  new _ := rfl
  length b := b.endpoints_length
  none b call hrecord := by
    cases call with
    | addNode node =>
      show (b.addNode node).endpoints = b.endpoints
      unfold addNode
      split <;> rfl
    | addEdge edge =>
      show (b.addEdge edge).endpoints = b.endpoints
      unfold addEdge
      split <;> rfl
    | addEndpoint endpoint => cases hrecord
    | _ => rfl
  some b call endpoint hrecord := by
    cases call with
    | addEndpoint endpoint' =>
      obtain rfl := Option.some.inj hrecord
      show (b.addEndpoint endpoint').endpoints = _
      rw [← if_congr endpointError_eq_none_iff rfl rfl]
      unfold addEndpoint
      split
      · next hsome => rw [if_neg (hsome ▸ Option.some_ne_none _)]; rfl
      · next hnone => rw [if_pos hnone]; rfl
    | _ => cases hrecord

end FabricSnapshotBuilder

/-! ## What is set -/

/-- What is set and not added: all but nodes, edges and endpoints. -/
def FabricContent.settings (c : FabricContent) : FabricContent :=
  { c with nodes := [], edges := [], endpoints := [] }

/-- What is set by a call does not depend on what was added. -/
theorem FabricContent.settings_supply {c c' : FabricContent} (h : c.settings = c'.settings)
    (call : BuilderCall) : (c.supply call).settings = (c'.supply call).settings := by
  obtain ⟨⟩ := c
  obtain ⟨⟩ := c'
  unfold settings at h
  injection h
  subst_vars
  cases call <;> rfl

namespace FabricSnapshotBuilder

variable {b : FabricSnapshotBuilder}

theorem settings_perform (call : BuilderCall) :
    (b.perform call).content.settings = (b.content.supply call).settings := by
  cases call with
  | addNode node =>
    show (b.addNode node).content.settings = _
    unfold addNode
    split <;> rfl
  | addEdge edge =>
    show (b.addEdge edge).content.settings = _
    unfold addEdge
    split <;> rfl
  | addEndpoint endpoint =>
    show (b.addEndpoint endpoint).content.settings = _
    unfold addEndpoint
    split <;> rfl
  | _ => rfl

/-- **The rest** is what was set last. -/
theorem settings_ofCalls (limits : ResourceLimits) (calls : List BuilderCall) :
    (ofCalls limits calls).content.settings = (FabricContent.ofCalls calls).settings := by
  unfold ofCalls FabricContent.ofCalls
  induction calls using List.reverseRecOn with
  | nil => rfl
  | append_singleton calls call ih =>
    rw [List.foldl_append, List.foldl_append, List.foldl_cons, List.foldl_cons, List.foldl_nil,
      List.foldl_nil, settings_perform]
    exact FabricContent.settings_supply ih call

theorem limits_ofCalls (limits : ResourceLimits) (calls : List BuilderCall) :
    (ofCalls limits calls).limits = limits := by
  unfold ofCalls
  induction calls using List.reverseRecOn with
  | nil => rfl
  | append_singleton calls call ih =>
    rw [List.foldl_append, List.foldl_cons, List.foldl_nil, limits_perform, ih]

end FabricSnapshotBuilder

end PathPlanner
