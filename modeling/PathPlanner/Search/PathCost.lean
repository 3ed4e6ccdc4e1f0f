import PathPlanner.Search.Candidates

/-!
# The cost of a search and the reported cost

A search adds the increment of every entry to a label, and the increment holds the penalties that the
view added to the static cost when it was built. A reported cost multiplies the hop cost and the
penalties by the hops they apply to, sums the static costs and adds the four parts up. Both use
checked operations, in different orders; on a built view both yield the exact sum.

## Main definitions

* `PlanningView.searchCost`: the label that a search reaches along a path
* `PlanningView.exactPathCost`: the exact sum over the hops
* `CostsAgree`: what the two computations have in common

## Main results

* `searchCost_eq_some_iff`: a search accumulates the exact sum, or reports an overflow
* `costsAgree_of_buildPlanningView`: the two costs agree on a built view
-/

namespace PathPlanner

namespace PlanningView

variable (view : PlanningView)

/-- The cost of the label that a search reaches from a label along some entries: the checked sum with
the increment of every entry. -/
def searchCost (cost : CostValue) (path : List ℕ) : Option CostValue :=
  path.foldlM (fun cost k => (view.hopIncrement (view.adjacencyAt k)).bind (checkedAdd cost)) cost

/-- The sum over the hops of the hop cost, the static cost and the penalties that apply. -/
def exactPathCost (path : List ℕ) : ℕ := exactCost view.costModel (path.map view.hopCostInput)

end PlanningView

/-- **The two costs agree** on a raw path: each exists exactly when the exact sum fits 64 bits and is
that sum, and on the way there no operation overflows or wraps around. -/
structure CostsAgree (view : PlanningView) (raw : RawPath) : Prop where
  reported_iff : (view.computeRawPathCost raw).isSome ↔ view.exactPathCost raw.adjacency < 2 ^ 64
  reported_total : ∀ cost, view.computeRawPathCost raw = some cost →
    cost.total.value = view.exactPathCost raw.adjacency ∧
      cost.total.value = cost.hopsCost.value + cost.staticCost.value + cost.degradedPenalty.value +
        cost.localityPenalty.value
  reported_eq : ∀ cost, view.computeRawPathCost raw = some cost →
    view.searchCost (.ofNat 0) raw.adjacency = some cost.total
  searched_iff : ∀ total, view.searchCost (.ofNat 0) raw.adjacency = some total ↔
    view.exactPathCost raw.adjacency = total.value
  /-- The static costs are summed up hop by hop. -/
  static_prefix : view.exactPathCost raw.adjacency < 2 ^ 64 → ∀ n, ∃ sum : CostValue,
    ((raw.adjacency.take n).map view.hopCostInput).foldlM
      (fun sum hop => checkedAdd sum hop.staticCost.toCost) (.ofNat 0) = some sum ∧
      sum.value = ((raw.adjacency.take n).map fun k => (view.hopCostInput k).staticCost.value).sum
  /-- The products and the sums of the report are exact. -/
  products : ∀ cost, view.computeRawPathCost raw = some cost →
    cost.hopsCost.value = view.costModel.hopCost.value * raw.adjacency.length ∧
    cost.degradedPenalty.value = view.costModel.degradedPenalty.value *
      raw.adjacency.countP (fun k => (view.hopCostInput k).degraded) ∧
    cost.localityPenalty.value = view.costModel.localityPenalty.value *
      raw.adjacency.countP (fun k => (view.hopCostInput k).outsideLocality)
  /-- The increment of every entry exists, and so does the label after every entry. -/
  increment : view.exactPathCost raw.adjacency < 2 ^ 64 → ∀ k ∈ raw.adjacency, ∃ increment,
    view.hopIncrement (view.adjacencyAt k) = some increment ∧
      increment.value = exactHopCost view.costModel (view.hopCostInput k)
  search_prefix : view.exactPathCost raw.adjacency < 2 ^ 64 → ∀ n, ∃ cost,
    view.searchCost (.ofNat 0) (raw.adjacency.take n) = some cost ∧
      cost.value = view.exactPathCost (raw.adjacency.take n)

section Agreement

variable {view : PlanningView} {path : List ℕ} {raw : RawPath}

/-- **A search accumulates the exact sum**, or reports an overflow. -/
theorem searchCost_eq_some_iff (coh : view.CostCoherent)
    (hpath : ∀ k ∈ path, k < view.adjacency.length) {start total : CostValue} :
    view.searchCost start path = some total ↔
      start.value + view.exactPathCost path = total.value := by
  induction path generalizing start with
  | nil => simp [PlanningView.searchCost, PlanningView.exactPathCost, exactCost, StrongUInt.ext_iff]
  | cons k path ih =>
    obtain ⟨hk, hpath⟩ := List.forall_mem_cons.mp hpath
    have hexact : view.exactPathCost (k :: path) =
        view.exactIncrement k + view.exactPathCost path := by
      rw [coh k hk]
      rfl
    have hcons : view.searchCost start (k :: path) =
        ((view.hopIncrement (view.adjacencyAt k)).bind (checkedAdd start)).bind
          (view.searchCost · path) := List.foldlM_cons
    rw [hcons, hexact, Option.bind_eq_some_iff]
    simp only [Option.bind_eq_some_iff, hopIncrement_eq_some_iff, checkedAdd_eq_some_iff, ih hpath]
    constructor
    · rintro ⟨next, ⟨increment, hincrement, hnext⟩, htotal⟩
      omega
    · intro h
      have hlt := total.lt
      exact ⟨⟨start.value + view.exactIncrement k, by omega⟩,
        ⟨⟨view.exactIncrement k, by omega⟩, rfl, rfl⟩, by dsimp only; omega⟩

theorem exactPathCost_append (p q : List ℕ) :
    view.exactPathCost (p ++ q) = view.exactPathCost p + view.exactPathCost q := by
  unfold PlanningView.exactPathCost exactCost
  rw [List.map_append, List.map_append, List.sum_append]

/-- A beginning of a path costs at most as much as the path. -/
theorem exactPathCost_take_le (path : List ℕ) (n : ℕ) :
    view.exactPathCost (path.take n) ≤ view.exactPathCost path := by
  have hsplit : view.exactPathCost (path.take n ++ path.drop n) =
      view.exactPathCost (path.take n) + view.exactPathCost (path.drop n) :=
    exactPathCost_append _ _
  rw [List.take_append_drop] at hsplit
  omega

/-- The static costs are part of the exact cost. -/
theorem static_le_exactPathCost (path : List ℕ) :
    (path.map fun k => (view.hopCostInput k).staticCost.value).sum ≤ view.exactPathCost path := by
  unfold PlanningView.exactPathCost
  rw [exactCost_eq, List.map_map]
  change (path.map fun k => (view.hopCostInput k).staticCost.value).sum ≤ _ + (path.map fun k =>
    (view.hopCostInput k).staticCost.value).sum + _ + _
  omega

/-- An entry of a path costs at most as much as the path. -/
theorem exactHopCost_le_exactPathCost {k : ℕ} (hk : k ∈ path) :
    exactHopCost view.costModel (view.hopCostInput k) ≤ view.exactPathCost path := by
  unfold PlanningView.exactPathCost exactCost
  rw [List.map_map]
  exact List.single_le_sum (fun _ _ => Nat.zero_le _) _
    (List.mem_map_of_mem (f := exactHopCost view.costModel ∘ view.hopCostInput) hk)

/-- **The costs agree** where the traversal costs are coherent. -/
theorem costsAgree_of_costCoherent (coh : view.CostCoherent)
    (hraw : ∀ k ∈ raw.adjacency, k < view.adjacency.length)
    (hhops : raw.adjacency.length ≤ maxHopCount) : CostsAgree view raw := by
  have hreport := fun cost => (@accumulatePathCost_eq_some_iff
    (raw.adjacency.map view.hopCostInput) view.costModel cost).mp
  have hsearch : ∀ total, view.searchCost (.ofNat 0) raw.adjacency = some total ↔
      view.exactPathCost raw.adjacency = total.value := by
    intro total
    rw [searchCost_eq_some_iff coh hraw, StrongUInt.value_ofNat, Nat.zero_mod, Nat.zero_add]
  constructor
  case reported_iff =>
    rw [PlanningView.computeRawPathCost, accumulatePathCost_isSome_iff, List.length_map,
      and_iff_right hhops]
    rfl
  case reported_total =>
    intro cost hcost
    obtain ⟨-, hh, hs, hd, hl, ht, -⟩ := hreport cost hcost
    have hparts := ht
    rw [exactCost_eq] at hparts
    exact ⟨ht, by omega⟩
  case reported_eq =>
    intro cost hcost
    exact (hsearch cost.total).mpr (total_of_accumulatePathCost hcost).symm
  case searched_iff => exact hsearch
  case static_prefix =>
    intro hlt n
    have htake : view.exactPathCost (raw.adjacency.take n) ≤ view.exactPathCost raw.adjacency :=
      exactPathCost_take_le raw.adjacency n
    have hle := (static_le_exactPathCost (raw.adjacency.take n)).trans htake
    refine ⟨⟨_, hle.trans_lt hlt⟩, foldlM_checkedAdd_eq_some_iff.mpr ?_, rfl⟩
    rw [StrongUInt.value_ofNat, Nat.zero_mod, Nat.zero_add, List.map_map]
    rfl
  case products =>
    intro cost hcost
    obtain ⟨-, hh, -, hd, hl, -⟩ := hreport cost hcost
    rw [List.length_map] at hh
    rw [List.countP_map] at hd hl
    exact ⟨hh, hd, hl⟩
  case increment =>
    intro hlt k hk
    have hle : exactHopCost view.costModel (view.hopCostInput k) ≤
        view.exactPathCost raw.adjacency := exactHopCost_le_exactPathCost hk
    exact ⟨⟨_, hle.trans_lt hlt⟩, hopIncrement_eq_some_iff.mpr (coh k (hraw k hk)), rfl⟩
  case search_prefix =>
    intro hlt n
    have hle : view.exactPathCost (raw.adjacency.take n) ≤ view.exactPathCost raw.adjacency :=
      exactPathCost_take_le raw.adjacency n
    refine ⟨⟨_, hle.trans_lt hlt⟩, (searchCost_eq_some_iff coh fun k hk =>
      hraw k (List.mem_of_mem_take hk)).mpr ?_, rfl⟩
    rw [StrongUInt.value_ofNat, Nat.zero_mod, Nat.zero_add]

/-- **Search cost is reported cost** on every raw path of at most 65535 hops over a built view. -/
theorem costsAgree_of_buildPlanningView {snapshot : FabricSnapshot} {request : PlanningRequest}
    {limits : ResourceLimits} {sourceNode destinationNode : NodeId} {built : BuiltView}
    (hbuilt : buildPlanningView snapshot request limits sourceNode destinationNode = .ok built)
    (hraw : ∀ k ∈ raw.adjacency, k < built.view.adjacency.length)
    (hhops : raw.adjacency.length ≤ maxHopCount) : CostsAgree built.view raw :=
  costsAgree_of_costCoherent (buildPlanningView_isCheckedView hbuilt).1.costCoherent hraw hhops

end Agreement

/-- Two hops over the first of the doubled links. -/
theorem costsAgree_of_buildPlanningView_doubledView :
    CostsAgree doubledView.view ⟨[0, 1, 2], [0, 2]⟩ :=
  costsAgree_of_buildPlanningView
    (FabricSnapshotBuilder.eq_ok_get _ : buildPlanningView doubledLinks (.between 1 3) {}
      (.tagged 0 1) (.tagged 0 3) = .ok doubledView)
    (by decide +kernel) (by decide)

end PathPlanner
