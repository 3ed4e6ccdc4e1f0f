import PathPlanner.Search.Yen

/-!
# The candidates of an enumeration

What `EnumerateCandidatePaths` returns without required transit: the first of the accepted paths
that respect the member limit. The paths returned are increasing in the canonical order. Roots are
compared as node sequences, so where parallel links make different roots visit the same nodes a
better path can be omitted; it is omitted exactly when some path among the best ones is not
discoverable.

## Main definitions

* `memberLimitTest`: the test that the accepted paths are filtered by
* `NoBetterPathOmitted`: the completeness of the paths returned
* `IsDiscoverable`: a path that is best of all, or that a spur search at the root of a better path
  leads to

## Main results

* `enumerateCandidatePaths_ok`: the paths returned are the first accepted ones that pass the test
* `enumerateCandidatePaths_increasing`: the order and uniqueness of the paths returned
* `enumerateCandidatePaths_complete_iff`: when no better path is omitted
* `isDiscoverable_of_no_parallel`: without parallel entries every path is discoverable
-/

namespace PathPlanner

open Multigraph

/-! ## The member limit and the number of candidates -/

/-- The test of an accepted path: the member limit, when there is an active one. -/
def memberLimitTest (view : PlanningView) (request : PlanningRequest) (options : EnumerationOptions)
    (entry : RankedRawPath) : Bool :=
  match options.domainMemberLimitActive, request.constraints.maxMembersPerFailureDomain with
  | true, some limit => domainMemberLimitCompliant view entry.path limit.toNat
      request.constraints.failClosedOnUnknownDomains
  | _, _ => true

section Result

variable {view : PlanningView} {request : PlanningRequest} {options : EnumerationOptions}
  {accepted : List RankedRawPath}

/-- The loop keeps the first paths that pass the test. -/
theorem keepCompliant_eq {compliant : RankedRawPath → Bool} {maxCandidates : ℕ}
    {entries kept : List RankedRawPath} (h : kept.length < maxCandidates) :
    keepCompliant compliant maxCandidates entries kept =
      kept ++ (entries.filter compliant).take (maxCandidates - kept.length) := by
  induction entries generalizing kept with
  | nil => simp [keepCompliant]
  | cons entry entries ih =>
    rw [keepCompliant]
    by_cases hc : compliant entry = true
    · rw [if_pos hc, List.filter_cons_of_pos hc]
      have hlen : (kept ++ [entry]).length = kept.length + 1 := by simp
      obtain ⟨n, hn⟩ : ∃ n, maxCandidates - kept.length = n + 1 :=
        ⟨maxCandidates - kept.length - 1, by omega⟩
      rw [hn, List.take_succ_cons]
      split_ifs with hfull
      · obtain rfl : n = 0 := by omega
        simp
      · rw [ih (by omega), hlen, show maxCandidates - (kept.length + 1) = n by omega]
        simp
    · rw [if_neg hc, List.filter_cons_of_neg hc, if_neg (by omega)]
      exact ih h

/-- **The paths returned** are the first accepted ones that pass the test. -/
theorem enumerationResult_paths : (enumerationResult view request options accepted).paths =
    ((accepted.filter (memberLimitTest view request options)).take options.maxCandidates).map
      (·.path) := by
  have hall (h : memberLimitTest view request options = fun _ => true) :
      accepted.filter (memberLimitTest view request options) = accepted := by
    rw [h, List.filter_true]
  unfold enumerationResult
  cases hactive : options.domainMemberLimitActive with
  | false =>
    rw [hall (funext fun entry => by simp [memberLimitTest, hactive])]
  | true =>
    cases hlimit : request.constraints.maxMembersPerFailureDomain with
    | none => rw [hall (funext fun entry => by simp [memberLimitTest, hactive, hlimit])]
    | some limit =>
      have htest : memberLimitTest view request options = fun entry =>
          domainMemberLimitCompliant view entry.path limit.toNat
            request.constraints.failClosedOnUnknownDomains :=
        funext fun entry => by simp [memberLimitTest, hactive, hlimit]
      rw [htest]
      dsimp only
      rcases Nat.eq_zero_or_pos options.maxCandidates with hzero | hpos
      · simp [hzero]
      · rw [keepCompliant_eq hpos]
        simp

theorem enumerationResult_ok : (enumerationResult view request options accepted).ok =
    !(enumerationResult view request options accepted).paths.isEmpty := rfl

end Result

/-! ## Order and uniqueness -/

section Candidates

variable {view : PlanningView} {request : PlanningRequest} {options : EnumerationOptions}
  (wf : view.WellFormed) (coh : view.CostCoherent) (hnodes : view.nodeCount ≤ maxHopCount + 1)
  (hsource : options.sourceView < view.nodeCount)
  (htransit : request.constraints.requiredTransit = []) {work : Work}

include htransit in
theorem enumerateCandidatePaths_eq :
    enumerateCandidatePaths view request options work =
      match enumeratePaths view options work with
      | .error ended => ended
      | .ok (accepted, work) => (enumerationResult view request options accepted, work) := by
  rw [enumerateCandidatePaths, htransit]
  rfl

include wf coh hnodes hsource htransit

/-- **The paths returned** are the first of the accepted paths that pass the test of the member
limit. -/
theorem enumerateCandidatePaths_ok
    (hok : (enumerateCandidatePaths view request options work).1.ok = true) :
    ∃ accepted, AllRanked view options.sourceView accepted ∧
      (options.deviation wf).Finished (max options.wanted 1) (accepted.map (·.entries)) ∧
      (∃ t, IsAdmissible view {} options.sourceView options.destinationView options.maxHops t) ∧
      (enumerateCandidatePaths view request options work).1 =
        enumerationResult view request options accepted := by
  rw [enumerateCandidatePaths_eq htransit] at hok ⊢
  cases henum : enumeratePaths view options work with
  | error ended =>
    rw [henum] at hok
    have := (enumeratePaths_error wf coh hsource henum).1
    rw [this] at hok
    cases hok
  | ok state =>
    obtain ⟨accepted, work'⟩ := state
    obtain ⟨hranked, hfin, hex⟩ := enumeratePaths_ok wf coh hsource
      (options.countsHops_of_nodeCount_le wf hsource hnodes) henum
    exact ⟨accepted, hranked, hfin, hex, rfl⟩

omit wf htransit coh hnodes hsource in
/-- The raw paths of ranked entries are the paths along their entries. -/
theorem map_path_of_allRanked {source : ℕ} {ranked : List RankedRawPath}
    (h : AllRanked view source ranked) :
    ranked.map (·.path) = (ranked.map (·.entries)).map (view.rawPath source) := by
  rw [List.map_map]
  exact List.map_congr_left fun entry he => (h entry he).path_eq

omit wf htransit coh hnodes hsource in
/-- The entries determine the raw path along them. -/
theorem rawPath_injective (source : ℕ) : Function.Injective (view.rawPath source) := fun _ _ h =>
  congrArg RawPath.adjacency h

omit htransit coh hnodes hsource in
/-- The first accepted path is the canonical shortest path. -/
theorem isCanonicalPath_of_head {n : ℕ} {first : List ℕ} {rest : List (List ℕ)}
    (hfin : (options.deviation wf).Finished n (first :: rest))
    (hex : ∃ t, IsAdmissible view {} options.sourceView options.destinationView options.maxHops t) :
    IsCanonicalPath view {} options.sourceView options.destinationView options.maxHops first := by
  obtain ⟨hmem, hle⟩ := hfin.head_isBest
  have hbest : ∀ t, IsAdmissible view {} options.sourceView options.destinationView
      options.maxHops t → view.pathKey options.sourceView first ≤
        view.pathKey options.sourceView t := fun t ht => hle t (isAdmissible_iff.mp ht).1
  refine ⟨?_, fun q hq hne => (hbest q hq).lt_of_ne fun heq => hne ?_⟩
  · obtain ⟨t, ht⟩ := hex
    exact isAdmissible_iff.mpr
      ⟨hmem, (PlanningView.pathWeight_le_of_key_le (hbest t ht)).trans_lt ht.weight_lt⟩
  · exact (wf.eq_of_pathKey_eq hmem.isWalk hq.isWalk heq).symm

/-- **Order and uniqueness**: the paths returned are different simple paths between the endpoints
within the hop bound, at most `max_candidates`, strictly increasing in the canonical order, and
without a member limit the first one is the canonical shortest path. -/
theorem enumerateCandidatePaths_increasing
    (hok : (enumerateCandidatePaths view request options work).1.ok = true) :
    (enumerateCandidatePaths view request options work).1.paths.Nodup ∧
      (enumerateCandidatePaths view request options work).1.paths.length ≤ options.maxCandidates ∧
      ∃ candidates : List (List ℕ),
        (enumerateCandidatePaths view request options work).1.paths =
          candidates.map (view.rawPath options.sourceView) ∧
        (∀ path ∈ candidates, IsCandidatePath view options.sourceView options.destinationView
          options.maxHops path) ∧
        candidates.Pairwise (view.pathKey options.sourceView · < view.pathKey options.sourceView ·) ∧
        (options.domainMemberLimitActive = false ∨
            request.constraints.maxMembersPerFailureDomain = none →
          ∃ first rest, candidates = first :: rest ∧ IsCanonicalPath view {} options.sourceView
            options.destinationView options.maxHops first) := by
  obtain ⟨accepted, hranked, hfin, hex, hres⟩ :=
    enumerateCandidatePaths_ok wf coh hnodes hsource htransit hok
  rw [hres] at hok ⊢
  rw [enumerationResult_ok] at hok
  rw [enumerationResult_paths] at hok ⊢
  generalize hkept : (accepted.filter (memberLimitTest view request options)).take
    options.maxCandidates = kept at hok ⊢
  have hsub : kept.Sublist accepted :=
    hkept ▸ (List.take_sublist _ _).trans List.filter_sublist
  have hkranked : AllRanked view options.sourceView kept := fun entry he =>
    hranked entry (hsub.subset he)
  have hpaths := map_path_of_allRanked hkranked
  have hinc : (kept.map (·.entries)).Pairwise
      (view.pathKey options.sourceView · < view.pathKey options.sourceView ·) :=
    hfin.increasing.sublist (hsub.map _)
  refine ⟨?_, ?_, kept.map (·.entries), hpaths, ?_, hinc, fun hno => ?_⟩
  · rw [hpaths]
    exact List.Nodup.map (rawPath_injective _) (hinc.imp fun hlt heq => hlt.ne (congrArg _ heq))
  · rw [List.length_map, ← hkept]
    exact List.length_take_le _ _
  · intro path hp
    have henum : IsEnumerable view options.sourceView options.destinationView options.maxHops path :=
      hfin.mem_paths ((hsub.map _).subset hp)
    exact ⟨henum.isWalk, henum.finish, henum.isSimple, henum.withinHops⟩
  · -- without a member limit nothing was filtered out
    have htest : accepted.filter (memberLimitTest view request options) = accepted := by
      refine List.filter_eq_self.mpr fun entry _ => ?_
      rcases hno with h | h <;> simp [memberLimitTest, h]
    rw [htest] at hkept
    cases hk : kept with
    | nil =>
      rw [hk] at hok
      cases hok
    | cons entry rest =>
      refine ⟨entry.entries, rest.map (·.entries), by rw [List.map_cons], ?_⟩
      obtain ⟨tail, rfl⟩ : ∃ tail, accepted = entry :: tail := by
        rw [hk] at hkept
        cases accepted with
        | nil => simp at hkept
        | cons head tail =>
          obtain ⟨n, hn⟩ : ∃ n, options.maxCandidates = n + 1 := by
            refine Nat.exists_eq_succ_of_ne_zero fun hz => ?_
            simp [hz] at hkept
          rw [hn, List.take_succ_cons] at hkept
          exact ⟨tail, by rw [(List.cons.inj hkept).1]⟩
      exact isCanonicalPath_of_head wf hfin hex

end Candidates

/-! ### Two views -/

/-- Three nodes in a row, neighbours joined by two parallel links. -/
def doubledLinks : FabricSnapshot :=
  (FabricSnapshotBuilder.ofLinks [1, 2, 3] [(1, 2), (1, 2), (2, 3), (2, 3)]).snapshotWith
    (by decide +kernel) ⟨Vector.replicate 32 1⟩

/-- Their view. -/
def doubledView : BuiltView :=
  (buildPlanningView doubledLinks (.between 1 3) {} (.tagged 0 1) (.tagged 0 3)).toOption.get
    (by decide +kernel)

theorem doubledView_spec : doubledView.view.WellFormed ∧ doubledView.view.CostCoherent := by
  have h := (buildPlanningView_isCheckedView
    (FabricSnapshotBuilder.eq_ok_get _ : buildPlanningView doubledLinks (.between 1 3) {}
      (.tagged 0 1) (.tagged 0 3) = .ok doubledView)).1
  exact ⟨h.wellFormed, h.costCoherent⟩

/-- Three nodes that are joined pairwise. -/
def triangleLinks : FabricSnapshot :=
  (FabricSnapshotBuilder.ofLinks [1, 2, 3] [(1, 2), (2, 3), (1, 3)]).snapshotWith
    (by decide +kernel) ⟨Vector.replicate 32 2⟩

@[inherit_doc doubledView]
def triangleView : BuiltView :=
  (buildPlanningView triangleLinks (.between 1 3) {} (.tagged 0 1) (.tagged 0 3)).toOption.get
    (by decide +kernel)

theorem triangleView_spec : triangleView.view.WellFormed ∧ triangleView.view.CostCoherent := by
  have h := (buildPlanningView_isCheckedView
    (FabricSnapshotBuilder.eq_ok_get _ : buildPlanningView triangleLinks (.between 1 3) {}
      (.tagged 0 1) (.tagged 0 3) = .ok triangleView)).1
  exact ⟨h.wellFormed, h.costCoherent⟩

/-- Options to enumerate four paths from the first node to the last. -/
def fourPaths : EnumerationOptions where
  sourceView := 0
  destinationView := 2
  maxCandidates := 4
  enumerationCeiling := 4
  maxHops := noHopBound
  maxHops_le := noHopBound_le_noHopBound

theorem enumerateCandidatePaths_increasing_doubledView :
    (enumerateCandidatePaths doubledView.view (.between 1 3) fourPaths
      smallBudget).1.paths.Nodup :=
  (enumerateCandidatePaths_increasing doubledView_spec.1 doubledView_spec.2 (by decide +kernel)
    (show 0 < doubledView.view.nodeCount by decide +kernel) rfl (by decide +kernel)).1

/-! ## Completeness -/

/-- Nothing better is omitted: every path that is not returned ranks after the last one returned,
and when fewer than `k` are returned every path is. -/
def NoBetterPathOmitted (view : PlanningView) (source dest maxHops k : ℕ) (paths : List RawPath) :
    Prop :=
  (∀ t, IsAdmissible view {} source dest maxHops t → view.rawPath source t ∉ paths →
    ∀ last, paths.getLast? = some (view.rawPath source last) →
      view.pathKey source last < view.pathKey source t) ∧
  (paths.length < k → ∀ t, IsAdmissible view {} source dest maxHops t →
    view.rawPath source t ∈ paths)

/-- The paths that rank before a given one. -/
def betterPaths (view : PlanningView) (source dest maxHops : ℕ) (t : List ℕ) : Set (List ℕ) :=
  {p | IsAdmissible view {} source dest maxHops p ∧ view.pathKey source p < view.pathKey source t}

/-- The path is the canonical shortest one, or some better path `a` shares its first `i` links, and
* no path up to `a` that visits the same nodes up to there takes the next link of the path, and
* every path between `a` and the path that shares these links goes on with a link that some path up
  to `a` takes after the same nodes. -/
def IsDiscoverable (view : PlanningView) (source dest maxHops : ℕ) (t : List ℕ) : Prop :=
  IsCanonicalPath view {} source dest maxHops t ∨
    ∃ a ∈ betterPaths view source dest maxHops t, ∃ i < t.length, a.take i = t.take i ∧
      (∀ p, IsAdmissible view {} source dest maxHops p →
        view.pathKey source p ≤ view.pathKey source a →
        view.graph.nodes source (p.take i) = view.graph.nodes source (a.take i) → p[i]? ≠ t[i]?) ∧
      ∀ p ∈ betterPaths view source dest maxHops t,
        view.pathKey source a < view.pathKey source p → p.take i = a.take i →
        ∃ b, IsAdmissible view {} source dest maxHops b ∧
          view.pathKey source b ≤ view.pathKey source a ∧
          view.graph.nodes source (b.take i) = view.graph.nodes source (a.take i) ∧ b[i]? = p[i]?

section Completeness

variable {view : PlanningView} {request : PlanningRequest} {options : EnumerationOptions}
  (wf : view.WellFormed) (coh : view.CostCoherent) (hnodes : view.nodeCount ≤ maxHopCount + 1)
  (hsource : options.sourceView < view.nodeCount)
  (htransit : request.constraints.requiredTransit = []) {work : Work}

theorem betterPaths_eq {source dest maxHops : ℕ} {t : List ℕ} :
    (spurDeviation wf source dest maxHops).better t = betterPaths view source dest maxHops t := by
  ext p
  exact and_congr_left fun _ => mem_targets_iff wf

/-- Discoverable paths are those of the enumeration by deviation. -/
theorem isDiscoverable_iff {source dest maxHops : ℕ} {t : List ℕ}
    (ht : IsAdmissible view {} source dest maxHops t) :
    IsDiscoverable view source dest maxHops t ↔
      (spurDeviation wf source dest maxHops).Discoverable t := by
  unfold IsDiscoverable Deviation.Discoverable
  rw [betterPaths_eq]
  refine or_congr ⟨fun h p hp => ?_, fun h => ⟨ht, fun q hq hne => ?_⟩⟩ ?_
  · by_cases hpw : view.pathWeight p < 2 ^ 64 - 1
    · by_cases hne : p = t
      · rw [hne]
      · exact (h.least p (isAdmissible_iff.mpr ⟨hp, hpw⟩) hne).le
    · refine le_of_not_gt fun hlt => hpw ?_
      exact (PlanningView.pathWeight_le_of_key_le hlt.le).trans_lt ht.weight_lt
  · refine (h q (isAdmissible_iff.mp hq).1).lt_of_ne fun heq => hne ?_
    exact (wf.eq_of_pathKey_eq ht.isWalk hq.isWalk heq).symm
  · simp only [mem_targets_iff wf]
    rfl

include wf hsource in
/-- **Without parallel entries** every path is discoverable. -/
theorem isDiscoverable_of_no_parallel {maxHops dest : ℕ} {t : List ℕ}
    (hsimple : ∀ u < view.nodeCount, ∀ k ∈ view.adjacencyRange u, ∀ l ∈ view.adjacencyRange u,
      (view.adjacencyAt k).target = (view.adjacencyAt l).target → k = l)
    (ht : IsAdmissible view {} options.sourceView dest maxHops t) :
    IsDiscoverable view options.sourceView dest maxHops t := by
  rw [isDiscoverable_iff wf ht]
  refine Deviation.discoverable_of_same_imp_eq (finite_targets wf hsource) ?_
    ((mem_targets_iff wf).mpr ht)
  -- the nodes of a walk determine its entries
  have hwalk : ∀ (u : ℕ) (r r' : List ℕ), view.graph.IsWalk u r → view.graph.IsWalk u r' →
      view.graph.nodes u r = view.graph.nodes u r' → r = r' := by
    intro u r
    induction r generalizing u with
    | nil =>
      intro r' _ _ heq
      cases r' with
      | nil => rfl
      | cons l r' => simp [nodes] at heq
    | cons k r ih =>
      intro r' hr hr' heq
      cases r' with
      | nil => simp [nodes] at heq
      | cons l r' =>
        rw [nodes_cons, nodes_cons, List.cons.injEq] at heq
        have htarget : (view.adjacencyAt k).target = (view.adjacencyAt l).target :=
          (List.cons.inj heq.2).1
        obtain rfl := hsimple u (wf.lt_of_mem_out hr.1).1 k hr.1 l hr'.1 htarget
        rw [ih _ r' hr.2 hr'.2 heq.2]
  intro p hp q hq i hsame
  exact hwalk _ _ _ (hp.1.isWalk.take i) (hq.1.isWalk.take i) hsame

/-- Nothing better is omitted exactly when the best paths are all returned. -/
theorem noBetterPathOmitted_iff {source dest maxHops k : ℕ} {candidates : List (List ℕ)}
    (hsource : source < view.nodeCount)
    (h : (spurDeviation wf source dest maxHops).Finished k candidates) :
    NoBetterPathOmitted view source dest maxHops k (candidates.map (view.rawPath source)) ↔
      ∀ t, IsAdmissible view {} source dest maxHops t →
        (betterPaths view source dest maxHops t).ncard < k → t ∈ candidates := by
  have hiff := h.omits_none_iff (finite_targets wf hsource)
  simp only [mem_targets_iff wf, betterPaths_eq wf] at hiff
  rw [← hiff]
  unfold NoBetterPathOmitted
  simp only [List.mem_map_of_injective (rawPath_injective source), List.length_map,
    List.getLast?_map, Option.map_eq_some_iff, (rawPath_injective source).eq_iff]
  simp only [exists_eq_right]
  rfl

include wf coh hnodes hsource htransit

/-- **Completeness**: where the work budget suffices and no member limit is given, nothing better is
omitted exactly when every path that fewer than `max_candidates` paths precede is discoverable. -/
theorem enumerateCandidatePaths_complete_iff
    (hlimit : request.constraints.maxMembersPerFailureDomain = none)
    (hceiling : options.maxCandidates ≤ options.wanted)
    (hbudget : (enumerateCandidatePaths view request options work).1.resourceLimit = false) :
    NoBetterPathOmitted view options.sourceView options.destinationView options.maxHops
        options.maxCandidates (enumerateCandidatePaths view request options work).1.paths ↔
      ∀ t, IsAdmissible view {} options.sourceView options.destinationView options.maxHops t →
        (betterPaths view options.sourceView options.destinationView options.maxHops t).ncard <
          options.maxCandidates →
        IsDiscoverable view options.sourceView options.destinationView options.maxHops t := by
  rw [enumerateCandidatePaths_eq htransit] at hbudget ⊢
  cases henum : enumeratePaths view options work with
  | error ended =>
    obtain ⟨result, work'⟩ := ended
    rw [henum] at hbudget
    obtain ⟨-, -, -, hended⟩ := enumeratePaths_error wf coh hsource henum
    obtain ⟨hnone, -⟩ := (hended hbudget).resolve_right fun ⟨_, t, ht, hlong⟩ =>
      hlong (options.countsHops_of_nodeCount_le wf hsource hnodes t
        (isAdmissible_iff.mp ht.admissible).1.isCandidatePath)
    -- there is no path at all
    exact ⟨fun _ t ht => absurd ht (hnone t), fun _ =>
      ⟨fun t ht => absurd ht (hnone t), fun _ t ht => absurd ht (hnone t)⟩⟩
  | ok state =>
    obtain ⟨accepted, work'⟩ := state
    obtain ⟨hranked, hfin, -⟩ := enumeratePaths_ok wf coh hsource
      (options.countsHops_of_nodeCount_le wf hsource hnodes) henum
    have htest : accepted.filter (memberLimitTest view request options) = accepted :=
      List.filter_eq_self.mpr fun entry _ => by simp [memberLimitTest, hlimit]
    have hpaths : (enumerationResult view request options accepted).paths =
        ((accepted.map (·.entries)).take options.maxCandidates).map
          (view.rawPath options.sourceView) := by
      rw [enumerationResult_paths, htest, ← List.map_take, ← map_path_of_allRanked]
      exact fun entry he => hranked entry (List.mem_of_mem_take he)
    have hfin' := hfin.take (hceiling.trans (le_max_left _ _))
    change NoBetterPathOmitted _ _ _ _ _ (enumerationResult view request options accepted).paths ↔ _
    rw [hpaths, noBetterPathOmitted_iff wf hsource hfin']
    have hiff := hfin'.complete_iff (finite_targets wf hsource)
    simp only [mem_targets_iff wf, betterPaths_eq wf] at hiff
    rw [hiff]
    exact forall₂_congr fun t ht => forall_congr' fun _ => (isDiscoverable_iff wf ht).symm

omit wf coh hnodes hsource htransit in
/-- Both paths around a triangle are returned. -/
theorem enumerateCandidatePaths_complete_iff_triangleView :
    NoBetterPathOmitted triangleView.view 0 2 noHopBound 4
      (enumerateCandidatePaths triangleView.view (.between 1 3) fourPaths smallBudget).1.paths := by
  have hsimple : ∀ u < triangleView.view.nodeCount, ∀ k ∈ triangleView.view.adjacencyRange u,
      ∀ l ∈ triangleView.view.adjacencyRange u,
        (triangleView.view.adjacencyAt k).target = (triangleView.view.adjacencyAt l).target →
          k = l := by
    decide +kernel
  have hsource : fourPaths.sourceView < triangleView.view.nodeCount := by decide +kernel
  have hbudget : (enumerateCandidatePaths triangleView.view (.between 1 3) fourPaths
      smallBudget).1.resourceLimit = false := by decide +kernel
  exact (enumerateCandidatePaths_complete_iff triangleView_spec.1 triangleView_spec.2
    (by decide +kernel) hsource rfl rfl (show fourPaths.maxCandidates ≤ fourPaths.wanted by decide)
    hbudget).mpr fun t ht _ => isDiscoverable_of_no_parallel triangleView_spec.1 hsource hsimple ht

omit wf coh hnodes hsource htransit in
/-- Four paths lead over the doubled links, and of four wanted only three are returned: the second
link of the first hop was never followed by the second link of the second hop. -/
theorem not_noBetterPathOmitted_doubledView :
    (enumerateCandidatePaths doubledView.view (.between 1 3) fourPaths
        smallBudget).1.resourceLimit = false ∧
      ¬ NoBetterPathOmitted doubledView.view 0 2 noHopBound 4
        (enumerateCandidatePaths doubledView.view (.between 1 3) fourPaths
          smallBudget).1.paths := by
  refine ⟨by decide +kernel, fun h => ?_⟩
  have hadm : IsAdmissible doubledView.view {} 0 2 noHopBound [1, 3] := {
    isWalk := ⟨by decide +kernel, by decide +kernel, trivial⟩
    finish := by decide +kernel
    isSimple := by
      unfold IsSimple
      decide +kernel
    withinHops := Or.inl rfl
    unbanned := by decide +kernel
    weight_lt := by decide +kernel }
  have hmem := h.2 (by decide +kernel) [1, 3] hadm
  revert hmem
  decide +kernel

end Completeness

end PathPlanner
