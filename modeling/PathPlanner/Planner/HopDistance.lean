import PathPlanner.Planner.Structural

/-!
# Structural hop distance

`StructuralHopDistance` looks at the links of the requested layer that are not forbidden and join
two nodes that are not forbidden. The nodes of a snapshot and these links are a multigraph, and the
distance is the least number of hops of a directed path in it. A breadth-first search over the
positions of the nodes finds it: positions that are reached in a number of steps are the ends of
walks of that length.

## Main definitions

* `ConstraintSet.Leaves`: a link that the structural constraints leave
* `structuralGraph`, `IsStructuralPath`: the multigraph of these links and its paths
* `structuralHopCounts`: the lengths of the paths between two nodes

## Main results

* `stepsTo_structuralNeighbours_iff`: the steps of the search are the walks of the multigraph
* `structuralHopDistance_spec`: **the distance is the least length of a path**, and there is none
  exactly when there is no path
-/

namespace PathPlanner

open BreadthFirst Multigraph

/-! ## The links that are left -/

/-- A link of the requested layer that is not forbidden and joins two nodes that are not
forbidden. -/
def ConstraintSet.Leaves (constraints : ConstraintSet) (edge : EdgeRecord) : Prop :=
  edge.layer = constraints.layer ∧ edge.id ∉ constraints.forbiddenLinks ∧
    edge.source ∉ constraints.forbiddenNodes ∧ edge.target ∉ constraints.forbiddenNodes

instance (constraints : ConstraintSet) (edge : EdgeRecord) : Decidable (constraints.Leaves edge) :=
  inferInstanceAs (Decidable (_ ∧ _ ∧ _ ∧ _))

/-- The nodes of a snapshot with the links that the structural constraints leave. -/
def structuralGraph (snapshot : FabricSnapshot) (constraints : ConstraintSet) :
    Multigraph NodeId EdgeRecord where
  out node := snapshot.edges.filter fun edge => edge.source = node ∧ constraints.Leaves edge
  target := EdgeRecord.target

/-- A directed path between two nodes over these links. -/
structure IsStructuralPath (snapshot : FabricSnapshot) (constraints : ConstraintSet)
    (source destination : NodeId) (path : List EdgeRecord) : Prop where
  isWalk : (structuralGraph snapshot constraints).IsWalk source path
  isSimple : (structuralGraph snapshot constraints).IsSimple source path
  finish : (structuralGraph snapshot constraints).finish source path = destination

/-- The lengths of the paths between two nodes. -/
def structuralHopCounts (snapshot : FabricSnapshot) (constraints : ConstraintSet)
    (source destination : NodeId) : Set ℕ :=
  {n | ∃ path, IsStructuralPath snapshot constraints source destination path ∧ path.length = n}

section Graph

variable {snapshot : FabricSnapshot} {request : PlanningRequest} {constraints : ConstraintSet}
  {source destination node : NodeId} {edge : EdgeRecord} {path : List EdgeRecord} {a b s d n : ℕ}

theorem mem_structuralGraph_out : edge ∈ (structuralGraph snapshot constraints).out node ↔
    edge ∈ snapshot.edges ∧ edge.source = node ∧ constraints.Leaves edge := by
  rw [structuralGraph, List.mem_filter, decide_eq_true_iff]

/-- A walk with a hop ends at a node of the snapshot, or where it starts. -/
theorem finish_structuralGraph (h : (structuralGraph snapshot constraints).IsWalk source path) :
    (structuralGraph snapshot constraints).finish source path = source ∨
      ∃ record ∈ snapshot.nodes,
        record.id = (structuralGraph snapshot constraints).finish source path := by
  induction path generalizing source with
  | nil => exact Or.inl rfl
  | cons edge path ih =>
    rcases ih h.2 with hfinish | hfinish
    · obtain ⟨record, hrecord, hid, -⟩ :=
        snapshot.edge_target edge (mem_structuralGraph_out.mp h.1).1
      exact Or.inr ⟨record, hrecord, hid.trans hfinish.symm⟩
    · exact Or.inr hfinish

/-- A link that is left leaves a node of the snapshot. -/
theorem exists_node_of_mem_out (h : edge ∈ (structuralGraph snapshot constraints).out node) :
    ∃ record ∈ snapshot.nodes, record.id = node := by
  obtain ⟨hmem, hsource, -⟩ := mem_structuralGraph_out.mp h
  obtain ⟨record, hrecord, hid, -⟩ := snapshot.edge_source edge hmem
  exact ⟨record, hrecord, hid.trans hsource⟩

/-- A node that is found by its identity is at that position. -/
theorem getElem?_of_findIdx? (h : snapshot.nodes.findIdx? (·.id = node) = some a) :
    ∃ record, snapshot.nodes[a]? = some record ∧ record.id = node := by
  obtain ⟨ha, hid, -⟩ := List.findIdx?_eq_some_iff_getElem.mp h
  exact ⟨_, List.getElem?_eq_getElem ha, of_decide_eq_true hid⟩

/-- A node of the snapshot has a position. -/
theorem exists_findIdx?_of_mem {record : NodeRecord} (h : record ∈ snapshot.nodes) :
    ∃ a, snapshot.nodes[a]? = some record ∧
      snapshot.nodes.findIdx? (·.id = record.id) = some a := by
  obtain ⟨a, ha⟩ := List.mem_iff_getElem?.mp h
  exact ⟨a, ha, findIdx?_of_getElem? ha⟩

/-- **The neighbours of a position** are the positions that the links left lead to. -/
theorem mem_structuralNeighbours_iff {first second : NodeRecord}
    (ha : snapshot.nodes[a]? = some first) (hb : snapshot.nodes[b]? = some second) :
    b ∈ (structuralNeighbours snapshot request).getD a [] ↔
      ∃ edge ∈ (structuralGraph snapshot request.constraints).out first.id,
        edge.target = second.id := by
  have hposition (edge : EdgeRecord) :
      snapshot.nodes.findIdx? (·.id = edge.target) = some b ↔ edge.target = second.id := by
    constructor
    · intro hfound
      obtain ⟨record, hrecord, hid⟩ := getElem?_of_findIdx? hfound
      rw [← hid, Option.some.inj (hb.symm.trans hrecord)]
    · intro htarget
      rw [htarget]
      exact findIdx?_of_getElem? hb
  rw [structuralNeighbours, List.getD_eq_getElem?_getD, List.getElem?_map, ha]
  change b ∈ List.filterMap _ _ ↔ _
  rw [List.mem_filterMap]
  refine exists_congr fun edge => ?_
  rw [mem_structuralGraph_out, and_assoc, and_congr_right_iff]
  intro _
  rw [ConstraintSet.Leaves]
  -- the conditions of the loop, in its order
  split_ifs with hlayer hlink hnodes hsource
  · exact iff_of_false not_false fun h => hlayer h.1.2.1
  · exact iff_of_false not_false fun h => h.1.2.2.1 (SortedList.binarySearch_sortBy.mp hlink)
  · rw [Bool.or_eq_true, SortedList.binarySearch_sortBy, SortedList.binarySearch_sortBy] at hnodes
    exact iff_of_false not_false fun h => hnodes.elim h.1.2.2.2.1 h.1.2.2.2.2
  · rw [Bool.or_eq_true, SortedList.binarySearch_sortBy, SortedList.binarySearch_sortBy, not_or]
      at hnodes
    rw [SortedList.binarySearch_sortBy] at hlink
    rw [hposition]
    exact ⟨fun h => ⟨⟨hsource, not_not.mp hlayer, hlink, hnodes⟩, h⟩, fun h => h.2⟩
  · exact iff_of_false not_false fun h => hsource h.1.1

/-! ## Steps and walks -/

/-- **The steps of the search** are the walks of the multigraph. -/
theorem stepsTo_structuralNeighbours_iff {first second : NodeRecord}
    (hs : snapshot.nodes[s]? = some first) (hb : snapshot.nodes[b]? = some second) :
    StepsTo ((structuralNeighbours snapshot request).getD · []) s n b ↔
      ∃ path, (structuralGraph snapshot request.constraints).IsWalk first.id path ∧
        (structuralGraph snapshot request.constraints).finish first.id path = second.id ∧
        path.length = n := by
  constructor
  · intro hsteps
    induction hsteps generalizing second with
    | start =>
      refine ⟨[], trivial, ?_, rfl⟩
      exact congrArg NodeRecord.id (Option.some.inj (hs.symm.trans hb))
    | @step n u v hsteps hv ih =>
      -- a position without a node has no neighbours
      cases hu : snapshot.nodes[u]? with
      | none =>
        rw [structuralNeighbours, List.getD_eq_getElem?_getD, List.getElem?_map, hu] at hv
        exact absurd hv List.not_mem_nil
      | some middle =>
        obtain ⟨path, hwalk, hfinish, hlength⟩ := ih hu
        obtain ⟨edge, hedge, htarget⟩ := (mem_structuralNeighbours_iff hu hb).mp hv
        refine ⟨path ++ [edge], ?_, ?_, ?_⟩
        · rw [isWalk_append, hfinish]
          exact ⟨hwalk, hedge, trivial⟩
        · rw [finish_append]
          exact htarget
        · rw [List.length_append, hlength]
          rfl
  · rintro ⟨path, hwalk, hfinish, rfl⟩
    induction path using List.reverseRecOn generalizing b second with
    | nil =>
      have hid : snapshot.nodes.findIdx? (·.id = second.id) = some s :=
        hfinish ▸ findIdx?_of_getElem? hs
      rw [findIdx?_of_getElem? hb] at hid
      rw [Option.some.inj hid]
      exact StepsTo.start
    | append_singleton path edge ih =>
      obtain ⟨hwalk, hedge, -⟩ := isWalk_append.mp hwalk
      obtain ⟨middle, hmiddle, hid⟩ := exists_node_of_mem_out hedge
      obtain ⟨u, hu, -⟩ := exists_findIdx?_of_mem hmiddle
      rw [finish_append] at hfinish
      rw [List.length_append]
      have hneighbour := (mem_structuralNeighbours_iff hu hb).mpr ⟨edge, hid.symm ▸ hedge, hfinish⟩
      exact (ih hu hwalk hid.symm).step hneighbour

/-! ## The distance -/

/-- A walk of a length between two nodes contains a path that is no longer. -/
theorem exists_hopCount_le (hwalk : (structuralGraph snapshot constraints).IsWalk source path)
    (hfinish : (structuralGraph snapshot constraints).finish source path = destination) :
    ∃ n ∈ structuralHopCounts snapshot constraints source destination, n ≤ path.length := by
  obtain ⟨short, hsublist, hwalk', hfinish', hsimple⟩ := exists_isSimple_sublist hwalk
  exact ⟨short.length, ⟨short, ⟨hwalk', hsimple, hfinish'.trans hfinish⟩, rfl⟩, hsublist.length_le⟩

/-- A path between different nodes joins nodes of the snapshot. -/
theorem exists_findIdx?_of_isStructuralPath (hne : source ≠ destination)
    (h : IsStructuralPath snapshot constraints source destination path) :
    (∃ a, snapshot.nodes.findIdx? (·.id = source) = some a) ∧
      ∃ b, snapshot.nodes.findIdx? (·.id = destination) = some b := by
  constructor
  · cases path with
    | nil => exact absurd h.finish hne
    | cons edge path =>
      obtain ⟨record, hrecord, rfl⟩ := exists_node_of_mem_out h.isWalk.1
      obtain ⟨a, -, ha⟩ := exists_findIdx?_of_mem hrecord
      exact ⟨a, ha⟩
  · rcases finish_structuralGraph h.isWalk with hfinish | ⟨record, hrecord, hfinish⟩
    · exact absurd (hfinish.symm.trans h.finish) hne
    · obtain ⟨b, -, hb⟩ := exists_findIdx?_of_mem hrecord
      rw [hfinish, h.finish] at hb
      exact ⟨b, hb⟩

/-- **The search between two positions** finds the least length of a path. -/
theorem structuralSearch_spec {first second : NodeRecord}
    (hs : snapshot.nodes[s]? = some first) (hd : snapshot.nodes[d]? = some second) :
    (∀ n, structuralSearch (structuralNeighbours snapshot request) d (snapshot.nodes.length + 1) 0
        ([s], (List.replicate snapshot.nodes.length none).set s (some 0)) = some n →
      IsLeast (structuralHopCounts snapshot request.constraints first.id second.id) n) ∧
    (structuralSearch (structuralNeighbours snapshot request) d (snapshot.nodes.length + 1) 0
        ([s], (List.replicate snapshot.nodes.length none).set s (some 0)) = none →
      structuralHopCounts snapshot request.constraints first.id second.id = ∅) := by
  have hlt : s < snapshot.nodes.length := (List.getElem?_eq_some_iff.mp hs).1
  have hlength : ((List.replicate snapshot.nodes.length none).set s (some 0)).length =
      snapshot.nodes.length := List.length_set.trans List.length_replicate
  have hbound : ∀ u, ∀ v ∈ (structuralNeighbours snapshot request).getD u [],
      v < ((List.replicate snapshot.nodes.length none).set s (some 0)).length := by
    intro u v hv
    rw [hlength]
    exact lt_of_mem_structuralNeighbours hv
  have hstart := structuralState_start (structuralNeighbours snapshot request) hlt
  -- every path is as long as what the search finds, at least
  have hle : ∀ n ∈ structuralHopCounts snapshot request.constraints first.id second.id,
      ∃ m ≤ n, structuralSearch (structuralNeighbours snapshot request) d
        (snapshot.nodes.length + 1) 0
        ([s], (List.replicate snapshot.nodes.length none).set s (some 0)) = some m := by
    rintro n ⟨path, hpath, rfl⟩
    refine structuralSearch_le hbound hstart List.not_mem_nil ?_ ?_
    · rw [hlength]
      exact le_rfl
    · exact (stepsTo_structuralNeighbours_iff hs hd).mpr ⟨path, hpath.isWalk, hpath.finish, rfl⟩
  constructor
  · intro n hfound
    have hlower : n ∈ lowerBounds
        (structuralHopCounts snapshot request.constraints first.id second.id) := by
      intro m hm
      obtain ⟨k, hk, hk'⟩ := hle m hm
      rwa [← Option.some.inj (hfound.symm.trans hk')] at hk
    refine ⟨?_, hlower⟩
    have hlevel : levelIn ((List.replicate snapshot.nodes.length none).set s (some 0)) s = 0 :=
      hstart.layered.source_level
    have hsteps := stepsTo_of_structuralSearch hbound hstart (reached_start hlevel) hfound
    obtain ⟨path, hwalk, hfinish, hpath⟩ := (stepsTo_structuralNeighbours_iff hs hd).mp hsteps
    obtain ⟨m, hm, hmn⟩ := exists_hopCount_le hwalk hfinish
    rw [hpath] at hmn
    rwa [le_antisymm (hlower hm) hmn]
  · intro hnone
    refine Set.eq_empty_of_forall_notMem fun n hn => ?_
    obtain ⟨m, -, hm⟩ := hle n hn
    rw [hnone] at hm
    cases hm

/-- **The distance** is the least length of a path, and there is none only without a path. -/
theorem structuralHopDistance_spec :
    (∀ n, structuralHopDistance snapshot source destination request = some n →
      IsLeast (structuralHopCounts snapshot request.constraints source destination) n) ∧
    (structuralHopDistance snapshot source destination request = none →
      structuralHopCounts snapshot request.constraints source destination = ∅) := by
  unfold structuralHopDistance
  split_ifs with hsame
  · -- equal nodes are joined by the path without a hop
    subst hsame
    refine ⟨fun n hn => ?_, nofun⟩
    rw [← Option.some.inj hn]
    exact ⟨⟨[], ⟨trivial, isSimple_nil, rfl⟩, rfl⟩, fun n _ => Nat.zero_le n⟩
  · cases hs : snapshot.nodes.findIdx? (·.id = source) with
    | none =>
      refine ⟨nofun, fun _ => Set.eq_empty_of_forall_notMem ?_⟩
      rintro n ⟨path, hpath, -⟩
      obtain ⟨⟨a, ha⟩, -⟩ := exists_findIdx?_of_isStructuralPath hsame hpath
      rw [hs] at ha
      cases ha
    | some s =>
      cases hd : snapshot.nodes.findIdx? (·.id = destination) with
      | none =>
        refine ⟨nofun, fun _ => Set.eq_empty_of_forall_notMem ?_⟩
        rintro n ⟨path, hpath, -⟩
        obtain ⟨-, b, hb⟩ := exists_findIdx?_of_isStructuralPath hsame hpath
        rw [hd] at hb
        cases hb
      | some d =>
        obtain ⟨first, hfirst, rfl⟩ := getElem?_of_findIdx? hs
        obtain ⟨second, hsecond, rfl⟩ := getElem?_of_findIdx? hd
        exact structuralSearch_spec hfirst hsecond

end Graph

end PathPlanner
