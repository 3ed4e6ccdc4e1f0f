import PathPlanner.Search.Walk

/-!
# Raw paths

What the enumeration does with a path in view coordinates: its checked cost, the canonical order,
the tests of simplicity and of the failure-domain member limit, and the typed path built from it.

## Main definitions

* `PlanningView.computeRawPathCost`, `RankedRawPath`, `rankedBefore`: costs and the order
* `rawPathIsSimple`, `containsRawPath`: the tests of the enumeration
* `domainMemberLimitCompliant`: the member limit, counted link by link
* `buildCandidatePath`: the typed path

## Main results

* `PlanningView.computeRawPathCost_isSome_iff`: a walk has a cost exactly when it is short enough and
  its exact cost is representable
* `rankedBefore_iff`: the order is the order of the canonical keys
* `domainMemberLimitCompliant_iff`: no domain has more traversed links than the limit
-/

namespace PathPlanner

open SortedList Multigraph

/-! ## Costs -/

/-- `ComputeRawPathCost`. -/
def PlanningView.computeRawPathCost (view : PlanningView) (raw : RawPath) : Option PathCost :=
  accumulatePathCost (raw.adjacency.map view.hopCostInput) view.costModel

/-- `RankedRawPath`. -/
structure RankedRawPath where
  path : RawPath
  cost : PathCost

/-- `RankedBefore`: cost, hops, node identities, then the link identities both have. -/
def rankedBefore (view : PlanningView) (lhs rhs : RankedRawPath) : Bool :=
  if lhs.cost.total ≠ rhs.cost.total then lhs.cost.total < rhs.cost.total
  else if lhs.cost.hops ≠ rhs.cost.hops then lhs.cost.hops < rhs.cost.hops
  else
    let nodeIds (raw : RawPath) : List NodeId := raw.nodes.map fun i => (view.nodeAt i).id
    let linkIds (raw : RawPath) : List LinkId := raw.adjacency.map view.linkAt
    match compareSequences (nodeIds lhs.path) (nodeIds rhs.path) with
    | .lt => true
    | .gt => false
    | .eq =>
      -- the loop over the links stops at the shorter of the two paths
      let sharedHops := min lhs.path.adjacency.length rhs.path.adjacency.length
      compareSequences ((linkIds lhs.path).take sharedHops) ((linkIds rhs.path).take sharedHops) == .lt

/-- `RawPathIsSimple`. -/
def rawPathIsSimple (path : RawPath) : Bool := !hasDuplicate path.nodes

/-- `ContainsRawPath`. -/
def containsRawPath (paths : List RankedRawPath) (candidate : RawPath) : Bool :=
  paths.any fun entry => entry.path = candidate

/-- An entry that ranks the path along `path` from `u` by its cost. -/
structure RankedRawPath.Ranks (view : PlanningView) (u : ℕ) (entry : RankedRawPath)
    (path : List ℕ) : Prop where
  isWalk : view.graph.IsWalk u path
  path_eq : entry.path = view.rawPath u path
  cost_eq : view.computeRawPathCost entry.path = some entry.cost

section Costs

variable {view : PlanningView} {u : ℕ} {path p q : List ℕ} {a b : RankedRawPath}

/-- The exact cost of a walk is what its cost inputs add up to. -/
theorem PlanningView.pathWeight_eq_exactCost (wf : view.WellFormed) (coh : view.CostCoherent)
    (h : view.graph.IsWalk u path) :
    view.pathWeight path = exactCost view.costModel (path.map view.hopCostInput) := by
  unfold PlanningView.pathWeight Multigraph.weight exactCost
  rw [List.map_map]
  refine congrArg List.sum (List.map_congr_left fun k hk => ?_)
  exact coh k (wf.lt_of_mem_walk h hk)

/-- **A walk has a cost** exactly when it is short enough and its exact cost is representable. -/
theorem PlanningView.computeRawPathCost_isSome_iff (wf : view.WellFormed)
    (coh : view.CostCoherent) (h : view.graph.IsWalk u path) :
    (view.computeRawPathCost (view.rawPath u path)).isSome ↔
      path.length ≤ maxHopCount ∧ view.pathWeight path < 2 ^ 64 := by
  rw [PlanningView.computeRawPathCost, accumulatePathCost_isSome_iff,
    PlanningView.pathWeight_eq_exactCost wf coh h]
  simp [PlanningView.rawPath]

namespace RankedRawPath.Ranks

theorem length_le (h : a.Ranks view u p) : p.length ≤ maxHopCount := by
  have hc := h.cost_eq
  rw [h.path_eq] at hc
  simpa [PlanningView.rawPath] using (accumulatePathCost_eq_some_iff.mp hc).1

theorem total_eq (wf : view.WellFormed) (coh : view.CostCoherent) (h : a.Ranks view u p) :
    a.cost.total.value = view.pathWeight p := by
  have hc := h.cost_eq
  rw [h.path_eq] at hc
  rw [PlanningView.pathWeight_eq_exactCost wf coh h.isWalk]
  exact total_of_accumulatePathCost hc

theorem hops_eq (h : a.Ranks view u p) : a.cost.hops.value = p.length := by
  have hc := h.cost_eq
  rw [h.path_eq] at hc
  simpa [PlanningView.rawPath] using hops_of_accumulatePathCost hc

theorem weight_lt (wf : view.WellFormed) (coh : view.CostCoherent) (h : a.Ranks view u p) :
    view.pathWeight p < 2 ^ 64 :=
  h.total_eq wf coh ▸ a.cost.total.lt

/-- An entry ranks only one path. -/
theorem unique (h : a.Ranks view u p) (hq : a.Ranks view u q) : p = q :=
  congrArg RawPath.adjacency (h.path_eq.symm.trans hq.path_eq)

end RankedRawPath.Ranks

/-- **The order of the enumeration** is the order of the canonical keys. -/
theorem rankedBefore_iff (wf : view.WellFormed) (coh : view.CostCoherent) (ha : a.Ranks view u p)
    (hb : b.Ranks view u q) :
    rankedBefore view a b = true ↔ view.pathKey u p < view.pathKey u q := by
  unfold PlanningView.pathKey
  rw [Ranking.key_lt_iff]
  simp only [PlanningView.ranking_weight]
  change _ ↔ view.pathWeight p < view.pathWeight q ∨ view.pathWeight p = view.pathWeight q ∧ _
  rw [← ha.total_eq wf coh, ← hb.total_eq wf coh, ← ha.hops_eq, ← hb.hops_eq, ← StrongUInt.lt_iff,
    ← StrongUInt.ext_iff, ← StrongUInt.lt_iff, ← StrongUInt.ext_iff]
  unfold rankedBefore
  split_ifs with ht hh
  · simp [ht]
  · rw [not_not] at ht
    simp [ht, hh]
  · rw [not_not] at ht hh
    have hlen : p.length = q.length := by rw [← ha.hops_eq, ← hb.hops_eq, hh]
    simp only [ht, hh, lt_self_iff_false, true_and, false_or]
    rw [← compareSequences_eq_lt_iff, ← compareSequences_eq_eq_iff, ← compareSequences_eq_lt_iff]
    simp only [ha.path_eq, hb.path_eq, PlanningView.rawPath, hlen, min_self]
    rw [List.take_of_length_le (by simp [hlen]), List.take_of_length_le (by simp)]
    change _ ↔ compareSequences ((view.graph.nodes u p).map fun i => (view.nodeAt i).id)
      ((view.graph.nodes u q).map fun i => (view.nodeAt i).id) = .lt ∨ _ ∧
        compareSequences (p.map view.linkAt) (q.map view.linkAt) = .lt
    cases hn : compareSequences ((view.graph.nodes u p).map fun i => (view.nodeAt i).id)
      ((view.graph.nodes u q).map fun i => (view.nodeAt i).id) <;> simp [PlanningView.ranking, hn]

theorem rawPathIsSimple_iff {path : RawPath} : rawPathIsSimple path = true ↔ path.nodes.Nodup := by
  rw [rawPathIsSimple, Bool.not_eq_true', hasDuplicate_eq_false_iff]

theorem containsRawPath_iff {paths : List RankedRawPath} {candidate : RawPath} :
    containsRawPath paths candidate = true ↔ ∃ entry ∈ paths, entry.path = candidate := by
  simp [containsRawPath]

end Costs

/-! ## The failure-domain member limit -/

/-- One more traversed link of a domain, unless that exceeds the limit. -/
def countMember (limit : ℕ) (counts : FailureDomainId → ℕ) (domain : FailureDomainId) :
    Option (FailureDomainId → ℕ) :=
  let count := counts domain + 1
  if count > limit then none else some (Function.update counts domain count)

/-- The failure-domain membership of the link behind an entry. -/
def PlanningView.linkMembership (view : PlanningView) (k : ℕ) : Membership :=
  view.snapshot.failureDomains.membershipOf (SubjectKey.forLink (view.linkAt k))

/-- The loop body of `DomainMemberLimitCompliant`. -/
def countLink (view : PlanningView) (limit : ℕ) (failClosed : Bool)
    (counts : FailureDomainId → ℕ) (k : ℕ) : Option (FailureDomainId → ℕ) :=
  let membership := view.linkMembership k
  if !membership.known then (if failClosed then none else some counts)
  else membership.domains.foldlM (countMember limit) counts

/-- `DomainMemberLimitCompliant`. -/
def domainMemberLimitCompliant (view : PlanningView) (raw : RawPath) (limit : ℕ)
    (failClosed : Bool) : Bool :=
  if raw.adjacency.isEmpty then true
  else (raw.adjacency.foldlM (countLink view limit failClosed) fun _ => 0).isSome

/-- No failure domain has more than `limit` of the traversed links, and where unknown memberships
are excluded every traversed link has a known one. -/
def MemberLimitRespected (view : PlanningView) (limit : ℕ) (failClosed : Bool)
    (adjacency : List ℕ) : Prop :=
  (failClosed = true → ∀ k ∈ adjacency, (view.linkMembership k).known = true) ∧
    ∀ domain, adjacency.countP (fun k => domain ∈ (view.linkMembership k).domains) ≤ limit

section MemberLimit

variable {view : PlanningView} {limit k : ℕ} {failClosed : Bool} {counts counts' : FailureDomainId → ℕ}
  {domains : List FailureDomainId} {adjacency : List ℕ}

/-- The domains of a membership are listed once. -/
theorem nodup_membershipOf (domains : FailureDomainView) (subject : SubjectKey) :
    (domains.membershipOf subject).domains.Nodup := by
  have hs : domains.membership.Pairwise (fun a b => (ofLex a).1 ≤ (ofLex b).1) :=
    domains.membership_sorted.imp fun h => Prod.Lex.monotone_fst _ _ h.le
  unfold FailureDomainView.membershipOf
  refine List.Nodup.map_on ?_ ((domains.membership_sorted.imp ne_of_lt).sublist
    ((List.takeWhile_sublist _).trans (List.drop_sublist _ _)))
  intro x hx y hy hxy
  obtain ⟨-, hx⟩ := (mem_segment hs).mp hx
  obtain ⟨-, hy⟩ := (mem_segment hs).mp hy
  exact ofLex.injective (Prod.ext (hx.trans hy.symm) hxy)

theorem foldlM_countMember_eq_some_iff (hn : domains.Nodup) :
    domains.foldlM (countMember limit) counts = some counts' ↔
      (∀ d ∈ domains, counts d + 1 ≤ limit) ∧
        ∀ d, counts' d = counts d + if d ∈ domains then 1 else 0 := by
  induction domains generalizing counts with
  | nil =>
    simp only [List.foldlM_nil, Option.pure_def, Option.some_inj, List.not_mem_nil, false_implies,
      implies_true, if_false, add_zero, true_and]
    exact ⟨fun h d => congrFun h.symm d, fun h => (funext h).symm⟩
  | cons domain domains ih =>
    obtain ⟨hnot, hn⟩ := List.nodup_cons.mp hn
    rw [List.foldlM_cons, Option.bind_eq_bind]
    by_cases hlimit : counts domain + 1 > limit
    · simp only [countMember, if_pos hlimit, Option.bind_none, reduceCtorEq, false_iff, not_and]
      intro h
      have := h domain List.mem_cons_self
      omega
    · have hne : ∀ d ∈ domains, d ≠ domain := fun d hd he => hnot (he ▸ hd)
      simp only [countMember, if_neg hlimit, Option.bind_some, ih hn, List.forall_mem_cons]
      refine and_congr ?_ (forall_congr' fun d => ?_)
      · rw [and_iff_right (not_lt.mp hlimit : counts domain + 1 ≤ limit)]
        refine forall₂_congr fun d hd => ?_
        rw [Function.update_of_ne (hne d hd)]
      · by_cases hd : d = domain
        · simp [hd, hnot]
        · simp [hd]

/-- A membership that is not known lists no domain. -/
theorem domains_of_not_known (h : (view.linkMembership k).known = false) :
    (view.linkMembership k).domains = [] := by
  refine List.eq_nil_iff_forall_not_mem.mpr fun d hd => ?_
  obtain ⟨r, hr, -, hm⟩ := FailureDomainView.mem_membershipOf.mp hd
  exact Bool.false_ne_true
    (h.symm.trans (FailureDomainView.membershipOf_known_iff.mpr (Or.inl ⟨r, hr, hm⟩)))

/-- Counting one link adds one to each of its domains. -/
theorem countLink_eq_some_iff : countLink view limit failClosed counts k = some counts' ↔
    (failClosed = true → (view.linkMembership k).known = true) ∧
      (∀ d ∈ (view.linkMembership k).domains, counts d + 1 ≤ limit) ∧
        ∀ d, counts' d = counts d + if d ∈ (view.linkMembership k).domains then 1 else 0 := by
  unfold countLink
  dsimp only
  cases hknown : (view.linkMembership k).known with
  | true =>
    rw [Bool.not_true, if_neg Bool.false_ne_true, and_iff_right fun _ => rfl]
    exact foldlM_countMember_eq_some_iff (nodup_membershipOf _ _)
  | false =>
    rw [domains_of_not_known hknown]
    cases failClosed with
    | true => simp
    | false =>
      simp only [Bool.not_false, if_true, Bool.false_eq_true, if_false, Option.some_inj,
        false_implies, List.not_mem_nil, implies_true, add_zero, true_and]
      exact ⟨fun h d => congrFun h.symm d, fun h => (funext h).symm⟩

theorem foldlM_countLink_isSome_iff (h : ∀ d, counts d ≤ limit) :
    (adjacency.foldlM (countLink view limit failClosed) counts).isSome ↔
      (failClosed = true → ∀ k ∈ adjacency, (view.linkMembership k).known = true) ∧
        ∀ d, counts d + adjacency.countP (fun k => d ∈ (view.linkMembership k).domains) ≤ limit := by
  induction adjacency generalizing counts with
  | nil => simpa using h
  | cons k adjacency ih =>
    rw [List.foldlM_cons, Option.bind_eq_bind]
    cases hstep : countLink view limit failClosed counts k with
    | some counts' =>
      obtain ⟨hknown, hlimit, hcounts⟩ := countLink_eq_some_iff.mp hstep
      have hle : ∀ d, counts' d ≤ limit := by
        intro d
        rw [hcounts]
        split_ifs with hd
        · exact hlimit d hd
        · exact h d
      rw [Option.bind_some, ih hle]
      refine and_congr ?_ (forall_congr' fun d => ?_)
      · rw [List.forall_mem_cons]
        exact forall_congr' fun hf => (and_iff_right (hknown hf)).symm
      · rw [hcounts, List.countP_cons]
        simp only [decide_eq_true_eq]
        omega
    | none =>
      rw [Option.bind_none]
      simp only [Option.isSome_none, Bool.false_eq_true, false_iff, not_and]
      intro hknown hlimit
      -- with every membership known and room in every domain the link would have been counted
      refine Option.some_ne_none _ (Eq.trans (Eq.symm (countLink_eq_some_iff.mpr
        ⟨fun hf => hknown hf k List.mem_cons_self, fun d hd => ?_, fun d => rfl⟩)) hstep)
      have := hlimit d
      rw [List.countP_cons] at this
      simp only [hd, decide_true, if_true] at this
      omega

/-- **The test of the member limit** is that no domain has more traversed links than the limit. -/
theorem domainMemberLimitCompliant_iff {raw : RawPath} :
    domainMemberLimitCompliant view raw limit failClosed = true ↔
      MemberLimitRespected view limit failClosed raw.adjacency := by
  unfold domainMemberLimitCompliant MemberLimitRespected
  split_ifs with hempty
  · rw [List.isEmpty_iff] at hempty
    simp [hempty]
  · rw [foldlM_countLink_isSome_iff fun _ => Nat.zero_le _]
    simp only [zero_add]

end MemberLimit

/-! ## Typed paths -/

/-- The hop that an entry stands for. -/
def buildHop (view : PlanningView) (k : ℕ) : PathHop :=
  let entry := view.adjacencyAt k
  let edge := view.edgeAt entry.edge
  { link := edge.id
    source := edge.source
    target := edge.target
    fromPort := edge.fromPort
    toPort := edge.toPort
    layer := edge.layer
    relationship := edge.relationship
    structuralGeneration := edge.structuralGeneration
    staticCost := edge.staticCost
    linkState := view.snapshot.linkStates.stateOf edge.id
    degraded := entry.degraded }

/-- `BuildCandidatePath`. -/
def buildCandidatePath (view : PlanningView) (raw : RawPath) : CandidatePath :=
  match raw.nodes.head?, raw.nodes.getLast? with
  | some first, some last => {
      source := (view.nodeAt first).id
      destination := (view.nodeAt last).id
      layer := view.layer
      nodes := raw.nodes.map fun i => (view.nodeAt i).id
      hops := raw.adjacency.map (buildHop view) }
  | _, _ => {}

end PathPlanner
