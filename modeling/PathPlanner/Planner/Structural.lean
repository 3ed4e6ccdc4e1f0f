import PathPlanner.Library.BreadthFirst
import PathPlanner.Planner.Reached

/-!
# Structural distance

`StructuralHopDistance` searches the links that the structural constraints leave, breadth first. It
finds the destination whenever some walk over these links leads there, at no more hops than the walk
has. The entries of a view are such links, so where a view has a path its endpoints are structurally
connected within the hop bound.

## Main definitions

* `Discovers`: what the scan of the neighbours of a node does
* `StructuralState`: the invariant of the breadth-first loop

## Main results

* `structuralSearch_le`: the loop finds the destination within the length of every walk
* `structuralHopDistance_le`: the distance is at most the length of a path in the view
-/

namespace PathPlanner

open BreadthFirst Multigraph

/-! ## The scan of the neighbours -/

/-- The level of a node, as far as it is known. -/
def levelIn (distance : List (Option ℕ)) (v : ℕ) : ℕ := (distance.getD v none).getD 0

/-- The known nodes are those of the queue. -/
def Knows (distance : List (Option ℕ)) (queue : List ℕ) : Prop :=
  ∀ v, v ∈ queue ↔ ∃ k, distance.getD v none = some k

/-- What a scan at a level does to the queue and the distances: some nodes are new. -/
structure Discovers (d : ℕ) (neighbours queue fresh : List ℕ) (distance distance' : List (Option ℕ)) :
    Prop where
  nodup : fresh.Nodup
  unknown : ∀ v ∈ fresh, v ∉ queue
  covers : ∀ v ∈ neighbours, v ∈ queue ∨ v ∈ fresh
  length_eq : distance'.length = distance.length
  kept : ∀ v ∈ queue, distance'.getD v none = distance.getD v none
  assigned : ∀ v ∈ fresh, distance'.getD v none = some (d + 1)
  knows : Knows distance' (queue ++ fresh)

/-- **The scan of the neighbours** appends the new ones at the next level. -/
theorem discoverNeighbours_spec {d : ℕ} {neighbours queue : List ℕ} {distance : List (Option ℕ)}
    (hbound : ∀ v ∈ neighbours, v < distance.length) (hknows : Knows distance queue) :
    ∃ fresh distance', discoverNeighbours d neighbours (queue, distance) =
        (queue ++ fresh, distance') ∧
      Discovers d neighbours queue fresh distance distance' := by
  induction neighbours generalizing queue distance with
  | nil =>
    refine ⟨[], distance, by rw [List.append_nil]; rfl, ?_⟩
    exact ⟨List.nodup_nil, fun v hv => absurd hv List.not_mem_nil,
      fun v hv => absurd hv List.not_mem_nil, rfl, fun _ _ => rfl,
      fun v hv => absurd hv List.not_mem_nil, by rwa [List.append_nil]⟩
  | cons next neighbours ih =>
    obtain ⟨hnext, hbound⟩ := List.forall_mem_cons.mp hbound
    unfold discoverNeighbours at ih ⊢
    rw [List.foldl_cons]
    cases hd : distance.getD next none with
    | some k =>
      obtain ⟨fresh, distance', heq, hdis⟩ := ih hbound hknows
      have hmem : next ∈ queue := (hknows next).mpr ⟨k, hd⟩
      refine ⟨fresh, distance', by simpa only [hd] using heq, { hdis with covers := ?_ }⟩
      exact List.forall_mem_cons.mpr ⟨Or.inl hmem, hdis.covers⟩
    | none =>
      have hnew : next ∉ queue := fun hmem => by
        obtain ⟨k, hk⟩ := (hknows next).mp hmem
        rw [hd] at hk
        cases hk
      -- the distances once the node is assigned its level
      have hget (v : ℕ) : (distance.set next (some (d + 1))).getD v none =
          if v = next then some (d + 1) else distance.getD v none := by
        rw [List.getD_eq_getElem?_getD, List.getElem?_set]
        split_ifs with h h' h'
        · rfl
        · exact absurd h.symm h'
        · exact absurd h'.symm h
        · rw [List.getD_eq_getElem?_getD]
      have hknows' : Knows (distance.set next (some (d + 1))) (queue ++ [next]) := by
        intro v
        rw [List.mem_append, List.mem_singleton, hget, hknows v]
        split_ifs with h
        · exact iff_of_true (Or.inr h) ⟨d + 1, rfl⟩
        · exact or_iff_left h
      have hlength : (distance.set next (some (d + 1))).length = distance.length := List.length_set
      obtain ⟨fresh, distance', heq, hdis⟩ := ih (fun v hv => hlength ▸ hbound v hv) hknows'
      refine ⟨next :: fresh, distance', ?_, ?_⟩
      · simp only [hd]
        rw [heq, List.append_assoc]
        rfl
      constructor
      case nodup =>
        refine List.nodup_cons.mpr ⟨fun hmem => hdis.unknown next hmem ?_, hdis.nodup⟩
        exact List.mem_append_right _ (List.mem_singleton_self next)
      case unknown =>
        refine List.forall_mem_cons.mpr ⟨hnew, fun v hv hmem => hdis.unknown v hv ?_⟩
        exact List.mem_append_left _ hmem
      case covers =>
        refine List.forall_mem_cons.mpr ⟨Or.inr List.mem_cons_self, fun v hv => ?_⟩
        have hcases := hdis.covers v hv
        rw [List.mem_append, List.mem_singleton, or_assoc] at hcases
        exact hcases.imp_right List.mem_cons.mpr
      case length_eq => exact hdis.length_eq.trans hlength
      case kept =>
        intro v hv
        have hne : v ≠ next := fun h => hnew (h ▸ hv)
        rw [hdis.kept v (List.mem_append_left _ hv), hget, if_neg hne]
      case assigned =>
        refine List.forall_mem_cons.mpr ⟨?_, hdis.assigned⟩
        rw [hdis.kept next (List.mem_append_right _ (List.mem_singleton_self next)), hget, if_pos rfl]
      case knows =>
        have hk := hdis.knows
        rwa [List.append_assoc] at hk

/-! ## The loop -/

/-- The state of the loop: the nodes visited, the rest of the queue and the distances. -/
structure StructuralState (neighbours : List (List ℕ)) (source : ℕ) (done pending : List ℕ)
    (distance : List (Option ℕ)) : Prop where
  layered : Layered (neighbours.getD · []) source done pending (levelIn distance)
  knows : Knows distance (done ++ pending)

/-- There are no more nodes in the queue than distances. -/
theorem StructuralState.length_le {neighbours : List (List ℕ)} {source : ℕ} {done pending : List ℕ}
    {distance : List (Option ℕ)} (h : StructuralState neighbours source done pending distance) :
    (done ++ pending).length ≤ distance.length := by
  have hsub : done ++ pending ⊆ List.range distance.length := by
    intro v hv
    obtain ⟨k, hk⟩ := (h.knows v).mp hv
    rw [List.mem_range]
    by_contra hge
    rw [List.getD_eq_getElem?_getD, List.getElem?_eq_none (not_lt.mp hge)] at hk
    cases hk
  simpa using (h.layered.nodup.subperm hsub).length_le

/-- **One iteration** visits the first node of the queue; its new neighbours enter the queue one
level below, and the other levels stay. -/
theorem StructuralState.visit {neighbours : List (List ℕ)} {source node : ℕ} {done pending : List ℕ}
    {distance : List (Option ℕ)}
    (hbound : ∀ v ∈ neighbours.getD node [], v < distance.length)
    (h : StructuralState neighbours source done (node :: pending) distance) :
    ∃ fresh distance', discoverNeighbours (levelIn distance node) (neighbours.getD node [])
        (done ++ node :: pending, distance) = (done ++ [node] ++ (pending ++ fresh), distance') ∧
      StructuralState neighbours source (done ++ [node]) (pending ++ fresh) distance' ∧
      distance'.length = distance.length ∧
      (∀ v ∈ done ++ node :: pending, levelIn distance' v = levelIn distance v) ∧
      ∀ v ∈ fresh, levelIn distance' v = levelIn distance node + 1 := by
  obtain ⟨fresh, distance', heq, hdis⟩ := discoverNeighbours_spec
    (d := levelIn distance node) hbound h.knows
  have hlevel : ∀ v ∈ done ++ node :: pending, levelIn distance' v = levelIn distance v :=
    fun v hv => congrArg (Option.getD · 0) (hdis.kept v hv)
  have hfresh : ∀ v ∈ fresh, levelIn distance' v = levelIn distance node + 1 :=
    fun v hv => congrArg (Option.getD · 0) (hdis.assigned v hv)
  have hlist : done ++ node :: pending ++ fresh = done ++ [node] ++ (pending ++ fresh) := by simp
  refine ⟨fresh, distance', hlist ▸ heq, ?_, hdis.length_eq, hlevel, hfresh⟩
  exact {
    layered := h.layered.visit hlevel hfresh hdis.nodup hdis.unknown hdis.covers
    knows := hlist ▸ hdis.knows }

/-- **The loop finds the destination** at no more hops than a walk has. -/
theorem structuralSearch_le {neighbours : List (List ℕ)} {source destination n fuel : ℕ}
    {done pending : List ℕ} {distance : List (Option ℕ)}
    (hbound : ∀ u, ∀ v ∈ neighbours.getD u [], v < distance.length)
    (h : StructuralState neighbours source done pending distance) (hdone : destination ∉ done)
    (hfuel : distance.length + 1 ≤ fuel + done.length)
    (hsteps : StepsTo (neighbours.getD · []) source n destination) :
    ∃ d ≤ n, structuralSearch neighbours destination fuel done.length (done ++ pending, distance) =
      some d := by
  induction fuel generalizing done pending distance with
  | zero =>
    have hlength := h.length_le
    rw [List.length_append] at hlength
    omega
  | succ fuel ih =>
    cases pending with
    | nil => exact absurd (h.layered.mem_of_stepsTo hsteps) hdone
    | cons node pending =>
      have hget : (done ++ node :: pending)[done.length]? = some node := by simp
      rw [structuralSearch, hget]
      dsimp only
      split_ifs with hnode
      · subst hnode
        exact ⟨_, h.layered.level_le hsteps, rfl⟩
      · obtain ⟨fresh, distance', heq, hnext, hlength, -, -⟩ := h.visit (hbound node)
        have hdone' : destination ∉ done ++ [node] := fun hmem =>
          (List.mem_append.mp hmem).elim hdone fun hmem => hnode (List.mem_singleton.mp hmem).symm
        have hstep := ih (fun u v hv => hlength ▸ hbound u v hv) hnext hdone' (by
          rw [hlength, List.length_append, List.length_singleton]
          omega)
        rw [List.length_append, List.length_singleton] at hstep
        change ∃ d ≤ n, structuralSearch neighbours destination fuel (done.length + 1)
          (discoverNeighbours (levelIn distance node) _ _) = some d
        rwa [heq]

/-- The scan of the neighbours puts nothing but neighbours in the queue. -/
theorem discoverNeighbours_subset {d v : ℕ} {neighbours queue : List ℕ}
    {distance : List (Option ℕ)}
    (h : v ∈ (discoverNeighbours d neighbours (queue, distance)).1) :
    v ∈ queue ∨ v ∈ neighbours := by
  induction neighbours generalizing queue distance with
  | nil => exact Or.inl h
  | cons next neighbours ih =>
    unfold discoverNeighbours at ih h
    rw [List.foldl_cons] at h
    cases hd : distance.getD next none with
    | some k =>
      simp only [hd] at h
      exact (ih h).imp_right (List.mem_cons_of_mem next)
    | none =>
      simp only [hd] at h
      rcases ih h with hqueue | hrest
      · rcases List.mem_append.mp hqueue with hold | hnew
        · exact Or.inl hold
        · exact Or.inr (List.mem_singleton.mp hnew ▸ List.mem_cons_self)
      · exact Or.inr (List.mem_cons_of_mem next hrest)

/-- **The loop finds nothing else**: a distance that it returns is the length of a walk. -/
theorem stepsTo_of_structuralSearch {neighbours : List (List ℕ)} {source destination d fuel : ℕ}
    {done pending : List ℕ} {distance : List (Option ℕ)}
    (hbound : ∀ u, ∀ v ∈ neighbours.getD u [], v < distance.length)
    (h : StructuralState neighbours source done pending distance)
    (hreached : Reached (neighbours.getD · []) source (done ++ pending) (levelIn distance))
    (hfound : structuralSearch neighbours destination fuel done.length
      (done ++ pending, distance) = some d) :
    StepsTo (neighbours.getD · []) source d destination := by
  induction fuel generalizing done pending distance with
  | zero => cases hfound
  | succ fuel ih =>
    cases pending with
    | nil =>
      rw [structuralSearch, List.append_nil, List.getElem?_eq_none le_rfl] at hfound
      cases hfound
    | cons node pending =>
      have hget : (done ++ node :: pending)[done.length]? = some node := by simp
      rw [structuralSearch, hget] at hfound
      dsimp only at hfound
      split_ifs at hfound with hnode
      · subst hnode
        rw [← Option.some.inj hfound]
        exact hreached node (by simp)
      · obtain ⟨fresh, distance', heq, hnext, hlength, hlevel, hfresh⟩ := h.visit (hbound node)
        have hlist : done ++ [node] ++ (pending ++ fresh) = done ++ node :: pending ++ fresh := by
          simp
        -- a node that enters the queue is a neighbour of the one that is visited
        have hneighbour : ∀ v ∈ fresh, v ∈ neighbours.getD node [] ∨ v ∈ done ++ node :: pending := by
          intro v hv
          have hqueue : v ∈ (discoverNeighbours (levelIn distance node) (neighbours.getD node [])
              (done ++ node :: pending, distance)).1 := by
            rw [heq, hlist]
            exact List.mem_append_right _ hv
          exact (discoverNeighbours_subset hqueue).symm
        refine ih (fun u v hv => hlength ▸ hbound u v hv) hnext ?_ ?_
        · rw [hlist]
          exact hreached.visit (by simp) hlevel hfresh hneighbour
        · rw [← heq, List.length_append, List.length_singleton]
          exact hfound

/-- The loop starts with the source alone, at level zero. -/
theorem structuralState_start (neighbours : List (List ℕ)) {s n : ℕ} (hs : s < n) :
    StructuralState neighbours s [] [s] ((List.replicate n none).set s (some 0)) := by
  have hget (v : ℕ) : ((List.replicate n none).set s (some 0)).getD v none =
      if v = s then some 0 else none := by
    rw [List.getD_eq_getElem?_getD]
    by_cases hvs : v = s
    · rw [if_pos hvs, hvs, List.getElem?_set_self (by rwa [List.length_replicate])]
      rfl
    · rw [if_neg hvs, List.getElem?_set_ne (Ne.symm hvs), List.getElem?_replicate]
      split_ifs <;> rfl
  constructor
  case layered => exact layered_start (by rw [levelIn, hget, if_pos rfl]; rfl)
  case knows =>
    intro v
    rw [List.nil_append, List.mem_singleton, hget]
    split_ifs with hvs
    · exact iff_of_true hvs ⟨0, rfl⟩
    · exact iff_of_false hvs fun ⟨_, hk⟩ => hk.elim

/-! ## Paths of a view -/

section View

variable {snapshot : FabricSnapshot} {request : PlanningRequest} {limits : ResourceLimits}
  {source destination : NodeId} {built : BuiltView} {u k a n : ℕ} {path : List ℕ}

/-- The position of a node is found by its identity. -/
theorem findIdx?_of_getElem? {node : NodeRecord} (h : snapshot.nodes[a]? = some node) :
    snapshot.nodes.findIdx? (·.id = node.id) = some a := by
  obtain ⟨ha, hnode⟩ := List.getElem?_eq_some_iff.mp h
  refine List.findIdx?_eq_some_iff_getElem.mpr ⟨ha, by simp [hnode], fun j hj hsame => ?_⟩
  have hget := List.getElem?_eq_getElem (hj.trans ha)
  exact hj.ne (SortedList.eq_of_key_eq snapshot.nodes_sorted hget h (of_decide_eq_true hsame))

/-- **A view has only permitted links and nodes.** -/
theorem buildPlanningView_permitted
    (h : buildPlanningView snapshot request limits source destination = .ok built) :
    (∀ i < built.view.nodeCount, (built.view.nodeAt i).id ∉ request.constraints.forbiddenNodes) ∧
      ∀ k < built.view.adjacency.length,
        (built.view.edgeAt (built.view.adjacencyAt k).edge).id ∉
          request.constraints.forbiddenLinks := by
  obtain ⟨scan, hnum, -, -, hview, -⟩ := buildPlanningView_eq_ok h
  rw [hview]
  constructor
  · intro i hi hforbidden
    have hverdict := (hnum.nodeAt_spec hi).2
    rw [← NodeScan.view_nodeAt, evaluateNode,
      if_pos (SortedList.binarySearch_sortBy.mpr hforbidden)] at hverdict
    cases hverdict
  · intro k hk
    obtain ⟨p, -, -, -, hkeeps⟩ := NodeScan.exists_keeps_at hk
    exact hkeeps.linkPermitted

/-- An entry of a view leads to a structural neighbour. -/
theorem mem_structuralNeighbours
    (h : buildPlanningView snapshot request limits source destination = .ok built)
    (hk : k ∈ built.view.graph.out u) (ha : snapshot.nodes[a]? = some (built.view.nodeAt u)) :
    ∃ b, snapshot.nodes[b]? = some (built.view.nodeAt (built.view.graph.target k)) ∧
      b ∈ (structuralNeighbours snapshot request).getD a [] := by
  have hv := (buildPlanningView_isCheckedView h).1
  obtain ⟨hnodes, hlinks⟩ := buildPlanningView_permitted h
  obtain ⟨hu, hlt⟩ := hv.wellFormed.lt_of_mem_out hk
  have htarget := hv.target k hlt
  have hsource := (hv.mem_row_iff u hu k hlt).mp hk
  obtain ⟨b, hb⟩ := List.mem_iff_getElem?.mp (hv.node_mem _ htarget.1)
  refine ⟨b, hb, ?_⟩
  rw [structuralNeighbours, List.getD_eq_getElem?_getD, List.getElem?_map, ha]
  refine List.mem_filterMap.mpr ⟨_, hv.edge_mem hlt, ?_⟩
  have hlink : SortedList.binarySearch (SortedList.sortBy id request.constraints.forbiddenLinks)
      (built.view.edgeAt (built.view.adjacencyAt k).edge).id = false := by
    rw [← Bool.not_eq_true, SortedList.binarySearch_sortBy]
    exact hlinks k hlt
  have hnode (i : ℕ) (hi : i < built.view.nodeCount) :
      SortedList.binarySearch (SortedList.sortBy id request.constraints.forbiddenNodes)
        (built.view.nodeAt i).id = false := by
    rw [← Bool.not_eq_true, SortedList.binarySearch_sortBy]
    exact hnodes i hi
  rw [← htarget.2, ← hsource, hnode u hu, hnode _ htarget.1, hlink, hv.layer k hlt]
  simp only [ne_eq, not_true_eq_false, if_false, Bool.or_self, Bool.false_eq_true, if_true]
  exact findIdx?_of_getElem? hb

/-- A path of a view is a walk over structural neighbours. -/
theorem stepsTo_of_isWalk {s : ℕ}
    (h : buildPlanningView snapshot request limits source destination = .ok built)
    (ha : snapshot.nodes[a]? = some (built.view.nodeAt u))
    (hsteps : StepsTo ((structuralNeighbours snapshot request).getD · []) s n a)
    (hwalk : built.view.graph.IsWalk u path) :
    ∃ b, snapshot.nodes[b]? = some (built.view.nodeAt (built.view.graph.finish u path)) ∧
      StepsTo ((structuralNeighbours snapshot request).getD · []) s (n + path.length) b := by
  induction path generalizing u a n with
  | nil => exact ⟨a, ha, hsteps⟩
  | cons k path ih =>
    obtain ⟨b, hb, hmem⟩ := mem_structuralNeighbours h hwalk.1 ha
    obtain ⟨c, hc, hrest⟩ := ih hb (hsteps.step hmem) hwalk.2
    refine ⟨c, hc, ?_⟩
    rwa [List.length_cons, Nat.add_comm path.length, ← Nat.add_assoc]

/-- The neighbours are positions of nodes. -/
theorem lt_of_mem_structuralNeighbours {v : ℕ}
    (h : v ∈ (structuralNeighbours snapshot request).getD a []) : v < snapshot.nodes.length := by
  rw [structuralNeighbours, List.getD_eq_getElem?_getD, List.getElem?_map] at h
  cases hnode : snapshot.nodes[a]? with
  | none =>
    rw [hnode] at h
    exact absurd h List.not_mem_nil
  | some node =>
    rw [hnode] at h
    obtain ⟨edge, -, hedge⟩ := List.mem_filterMap.mp h
    split_ifs at hedge
    exact (List.findIdx?_eq_some_iff_getElem.mp hedge).1

/-- **Where a view has a path**, its endpoints are structurally connected, at no more hops. -/
theorem structuralHopDistance_le
    (h : buildPlanningView snapshot request limits source destination = .ok built)
    (hwalk : built.view.graph.IsWalk built.sourceView path)
    (hfinish : built.view.graph.finish built.sourceView path = built.destinationView) :
    ∃ d ≤ path.length, structuralHopDistance snapshot source destination request = some d := by
  obtain ⟨hv, ⟨hs, hsource⟩, ⟨-, hdestination⟩⟩ := buildPlanningView_isCheckedView h
  unfold structuralHopDistance
  split_ifs
  · exact ⟨0, Nat.zero_le _, rfl⟩
  obtain ⟨s, hsnode⟩ := List.mem_iff_getElem?.mp (hv.node_mem _ hs)
  obtain ⟨d, hdnode, hsteps⟩ := stepsTo_of_isWalk h hsnode .start hwalk
  rw [hfinish] at hdnode
  rw [Nat.zero_add] at hsteps
  rw [← hsource, ← hdestination, findIdx?_of_getElem? hsnode, findIdx?_of_getElem? hdnode]
  dsimp only
  have hlt : s < snapshot.nodes.length := (List.getElem?_eq_some_iff.mp hsnode).1
  have hlength : ((List.replicate snapshot.nodes.length none).set s (some 0)).length =
      snapshot.nodes.length := List.length_set.trans List.length_replicate
  have hfuel : ((List.replicate snapshot.nodes.length none).set s (some 0)).length + 1 ≤
      snapshot.nodes.length + 1 + ([] : List ℕ).length := by
    rw [hlength]
    exact le_rfl
  refine structuralSearch_le (fun a v hmem => ?_) (structuralState_start _ hlt) List.not_mem_nil
    hfuel hsteps
  rw [hlength]
  exact lt_of_mem_structuralNeighbours hmem

end View

end PathPlanner
