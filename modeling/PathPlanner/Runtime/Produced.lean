import PathPlanner.Codec.Paths
import PathPlanner.Runtime.Constraints

/-!
# What the planner produces

The codecs of the store and of the protocol check what they read. Most of what they check holds of
every result that the planner produces; this module collects it.

## Main definitions

* `Candidate.IsProduced`: what holds of every candidate of a result
* `PlanningResult.IsProduced`: what holds of every result that is published

## Main results

* `Candidate.IsProduced.isReadable_structural_iff`: a produced path is read back exactly when it is
  short enough
* `RuntimeState.planResult_cases_produced`: **a result is a refusal or produced**
-/

namespace PathPlanner

/-! ## Paths -/

section Paths

variable {layer : PathLayer} {nodes : List NodeId} {hops : List PathHop} {path : CandidatePath}

/-- The hops that agree with nodes go from node to node, on the layer. -/
theorem hop_of_hopsAgree (h : CandidatePath.hopsAgree layer nodes hops = true) {hop : PathHop}
    (hh : hop ∈ hops) : hop.source ∈ nodes ∧ hop.target ∈ nodes ∧ hop.layer = layer ∧
      hop.link.isValid = true ∧ hop.fromPort.isValid = true ∧ hop.toPort.isValid = true := by
  induction hops generalizing nodes with
  | nil => cases hh
  | cons first hops ih =>
    match nodes, h with
    | a :: b :: nodes, h =>
      simp only [CandidatePath.hopsAgree, Bool.and_eq_true, decide_eq_true_eq] at h
      obtain ⟨⟨⟨⟨hsource, htarget⟩, hlayer⟩, ⟨hlink, hfrom⟩, hto⟩, hrest⟩ := h
      rcases List.mem_cons.mp hh with rfl | hh
      · exact ⟨by simp [hsource], by simp [htarget], hlayer, hlink, hfrom, hto⟩
      · obtain ⟨hs, ht, hrest⟩ := ih hrest hh
        exact ⟨List.mem_cons_of_mem _ hs, List.mem_cons_of_mem _ ht, hrest⟩

/-- The nodes that hops agree with are the first one and the targets. -/
theorem nodes_eq_of_hopsAgree (h : CandidatePath.hopsAgree layer nodes hops = true)
    (hlength : nodes.length = hops.length + 1) :
    nodes.tail = hops.map PathHop.target := by
  induction hops generalizing nodes with
  | nil =>
    obtain ⟨a, rfl⟩ := List.length_eq_one_iff.mp hlength
    rfl
  | cons first hops ih =>
    match nodes, h with
    | a :: b :: nodes, h =>
      simp only [CandidatePath.hopsAgree, Bool.and_eq_true, decide_eq_true_eq] at h
      have htail := ih h.2 (by simpa using hlength)
      rw [List.tail_cons] at htail
      rw [List.tail_cons, List.map_cons, htail, h.1.1.1.2]

/-- Operational evidence does not matter to the agreement. -/
theorem hopsAgree_structural : CandidatePath.hopsAgree layer nodes (hops.map PathHop.structural) =
    CandidatePath.hopsAgree layer nodes hops := by
  induction hops generalizing nodes with
  | nil =>
    match nodes with
    | [] => rfl
    | [_] => rfl
    | _ :: _ :: _ => rfl
  | cons first hops ih =>
    match nodes with
    | [] => rfl
    | [_] => rfl
    | a :: b :: nodes =>
      rw [List.map_cons]
      simp only [CandidatePath.hopsAgree, ih]
      rfl

@[simp] theorem CandidatePath.isWellFormed_structural :
    path.structural.isWellFormed = path.isWellFormed := by
  unfold CandidatePath.isWellFormed CandidatePath.structural
  simp only [List.length_map, hopsAgree_structural]

@[simp] theorem CandidatePath.isSimple_structural : path.structural.isSimple = path.isSimple := rfl

/-- What a well-formed path is made of. -/
theorem CandidatePath.parts_of_isWellFormed (h : path.isWellFormed = true) :
    path.source.isValid = true ∧ path.destination.isValid = true ∧
      path.nodes = path.source :: path.hops.map PathHop.target ∧
      hopsAgree path.layer path.nodes path.hops = true := by
  simp only [isWellFormed, Bool.and_eq_true, beq_iff_eq, decide_eq_true_eq] at h
  obtain ⟨⟨⟨⟨⟨hsource, hdestination⟩, hlength⟩, -⟩, hhead, -⟩, hagree⟩ := h
  refine ⟨hsource, hdestination, ?_, hagree⟩
  rw [← nodes_eq_of_hopsAgree hagree hlength]
  exact (List.cons_head?_tail (Option.mem_def.mpr hhead)).symm

end Paths

/-! ## Candidates -/

/-- What holds of every candidate of a result with some evidence. -/
structure Candidate.IsProduced (sha : List UInt8 → Sha256Digest) (evidence : EvidenceVector)
    (c : Candidate) : Prop where
  id_eq : c.id = c.path.id sha
  evidence_eq : c.evidence = evidence
  isWellFormed : c.path.isWellFormed = true
  isSimple : c.path.isSimple = true
  layer_isKnown : WireEnum.IsKnown c.path.layer
  nodes_isValid : ∀ node ∈ c.path.nodes, node.isValid = true
  cost_isCoherent : c.cost.IsCoherent
  hops_eq : c.cost.hops.value = c.path.hops.length

/-- **A produced path** is read back, without its operational evidence, exactly when it is short
enough. -/
theorem Candidate.IsProduced.isReadable_structural_iff {sha : List UInt8 → Sha256Digest}
    {evidence : EvidenceVector} {c : Candidate} (h : c.IsProduced sha evidence) {maxHops : ℕ} :
    c.path.structural.IsReadable maxHops ↔ c.path.hops.length ≤ maxHops := by
  obtain ⟨hsource, hdestination, hnodes, hagree⟩ :=
    CandidatePath.parts_of_isWellFormed h.isWellFormed
  constructor
  · intro hreadable
    have hle := hreadable.hops_le
    rwa [CandidatePath.structural, List.length_map] at hle
  · intro hle
    refine ⟨hsource, hdestination, h.layer_isKnown, ?_, fun hop hh => ?_, ?_, ?_, h.isSimple⟩
    · rwa [CandidatePath.structural, List.length_map]
    · obtain ⟨hop, hop_mem, rfl⟩ := List.mem_map.mp hh
      obtain ⟨hs, ht, hlayer, hlink, hfrom, hto⟩ := hop_of_hopsAgree hagree hop_mem
      exact ⟨hlink, h.nodes_isValid _ hs, h.nodes_isValid _ ht, hfrom, hto,
        hlayer ▸ h.layer_isKnown, rfl⟩
    · change c.path.nodes = c.path.source :: (c.path.hops.map PathHop.structural).map
        PathHop.target
      rw [List.map_map, hnodes]
      rfl
    · rw [CandidatePath.isWellFormed_structural]
      exact h.isWellFormed

/-- A cost that was accumulated is coherent. -/
theorem isCoherent_of_accumulatePathCost {hops : List HopCostInput} {model : CostModel}
    {cost : PathCost} (h : accumulatePathCost hops model = some cost) : cost.IsCoherent := by
  have hhops := hops_of_accumulatePathCost h
  obtain ⟨hle, hc, hs, hd, hl, htotal, -, hdegraded, hbreaches⟩ := accumulatePathCost_eq_some_iff.mp h
  rw [exactCost_eq, ← hc, ← hs, ← hd, ← hl] at htotal
  exact ⟨hhops ▸ hle, htotal, by rw [hhops, hdegraded]; exact List.countP_le_length,
    by rw [hhops, hbreaches]; exact List.countP_le_length⟩

/-- A candidate that is found is named after its path. -/
theorem id_eq_of_mem_findCandidates {sha : List UInt8 → Sha256Digest} {limits : ResourceLimits}
    {request : PlanningRequest} {built : BuiltView} :
    ∀ c ∈ (findCandidates sha limits request built).candidates, c.id = c.path.id sha := by
  unfold findCandidates
  dsimp only
  split_ifs
  · intro c hc
    rw [Option.mem_toList, Option.map_eq_some_iff] at hc
    obtain ⟨cost, -, hcost⟩ := hc
    rw [← hcost]
  · simp
  · rw [enumerateCandidates_candidates]
    dsimp only
    split_ifs
    · intro c hc
      obtain ⟨raw, -, hraw⟩ := List.mem_filterMap.mp hc
      unfold candidateOf at hraw
      dsimp only at hraw
      split at hraw
      · cases hraw
      · split_ifs at hraw
        obtain rfl := Option.some.inj hraw
        rfl
    · simp

namespace Passes

variable {sha : List UInt8 → Sha256Digest} {capture : PlanCapture} {request : PlanningRequest}
  (p : Passes sha capture request)

/-- The candidates carry the evidence of the call. -/
theorem evidence_of_mem {c : Candidate} (hc : c ∈ p.candidates) :
    c.evidence = p.result.evidence := by
  have hmem := (validateCandidates_sublist (f := Candidate.evidence) (fun _ _ _ _ => rfl)
    p.validates).subset (List.mem_map_of_mem hc)
  obtain ⟨ranked, hr, heq⟩ := List.mem_map.mp hmem
  unfold rankedCandidates rankCandidates describeCandidates at hr
  obtain ⟨numbered, -, rfl⟩ := List.mem_map.mp hr
  rw [← heq, p.evidence_eq]
  rfl

/-- There are not more candidates than the request asks for. -/
theorem length_candidates_le : p.candidates.length ≤ request.maxCandidates.toNat := by
  have hsub := (validateCandidates_sublist ignoresVerdict_core p.validates).length_le
  rw [List.length_map, List.length_map] at hsub
  refine hsub.trans ?_
  unfold rankedCandidates rankCandidates describeCandidates numberCandidates
  rw [List.length_map, List.length_mapIdx]
  exact length_sortCandidates_le

/-- **A candidate of a computation** is produced. -/
theorem isProduced_of_mem {c : Candidate} (hc : c ∈ p.candidates) :
    c.IsProduced sha p.result.evidence := by
  obtain ⟨path, hpath, halong⟩ := p.along hc
  have hv := p.isCheckedView
  have hw : p.built.view.graph.IsWalk p.built.sourceView path := hpath.candidate.isWalk
  have hcost : accumulatePathCost _ _ = some c.cost := halong.cost_eq
  refine ⟨?_, p.evidence_of_mem hc, ?_, ?_, ?_, fun node hnode => ?_,
    isCoherent_of_accumulatePathCost hcost, ?_⟩
  · obtain ⟨found, hfound, heq⟩ := p.exists_found
      (f := fun c => (c.id, c.path)) (fun _ _ _ _ _ _ _ => rfl) hc
    obtain ⟨hid, hpath⟩ := Prod.mk.inj heq
    rw [hid, hpath]
    exact id_eq_of_mem_findCandidates found hfound
  · rw [halong.path_eq]
    exact isWellFormed_buildCandidatePath hv p.source_lt hw
  · rw [halong.path_eq]
    exact CandidatePath.isSimple_iff.mpr
      (isSimple_buildCandidatePath hv p.source_lt hw hpath.candidate.isSimple)
  · have hshape := firstProblem_eq_none_iff.mp (validateRequest_eq_none_iff.mp p.valid).1
    simp only [List.forall_mem_cons, Bool.not_eq_false'] at hshape
    rw [halong.path_eq, buildCandidatePath_rawPath, hv.layer_eq]
    exact hshape.2.2.2.2.2.1
  · rw [halong.path_eq, nodes_buildCandidatePath] at hnode
    obtain ⟨i, hi, rfl⟩ := List.mem_map.mp hnode
    exact p.snapshot.nodes_valid _ (hv.node_mem i (hv.wellFormed.lt_of_mem_nodes p.source_lt hw i hi))
  · rw [hops_of_accumulatePathCost hcost, halong.path_eq, hops_buildCandidatePath, List.length_map,
      List.length_map]
    rfl

/-- A rejection is counted at most once for each node and each edge. -/
theorem occurrences_lt : ∀ rejection ∈ p.result.rejections, rejection.occurrences < 2 ^ 64 := by
  intro rejection hrejection
  have hbuilds := p.builds
  unfold buildView at hbuilds
  split at hbuilds
  · cases hbuilds
  · next built hbuilt =>
    obtain rfl := Except.ok.inj hbuilds
    have hcounts := (buildPlanningView_countsAtMost hbuilt).render rejection hrejection
    have hnodes := p.snapshot.nodes_length_lt
    have hedges := p.snapshot.edges_length_lt
    omega

end Passes

/-! ## Results -/

section MakePathPlan

variable (sha : List UInt8 → Sha256Digest) (request : PlanningRequest)
  {result result' : PlanningResult}

/-- The results agree on what enters the digest of a plan. -/
structure PlanningResult.SameMeaning (result result' : PlanningResult) : Prop where
  status : result.status = result'.status
  source : result.sourceNode = result'.sourceNode
  destination : result.destinationNode = result'.destinationNode
  evidence : result.evidence = result'.evidence
  candidates : result.candidates.map Candidate.semanticWord =
    result'.candidates.map Candidate.semanticWord

/-- **Plans of the same meaning** have the same digest and the same identity. -/
theorem makePathPlan_congr (h : result.SameMeaning result') (sequence sequence' : PlanPublishSequence) :
    (makePathPlan sha request result sequence).semanticDigest =
        (makePathPlan sha request result' sequence').semanticDigest ∧
      (makePathPlan sha request result sequence).id =
        (makePathPlan sha request result' sequence').id := by
  have hlength := congrArg List.length h.candidates
  rw [List.length_map, List.length_map] at hlength
  have hword : ∀ {plan plan' : PathPlan}, plan.semanticWord = plan'.semanticWord →
      plan.computeSemanticDigest sha = plan'.computeSemanticDigest sha := fun hplans => by
    rw [PathPlan.computeSemanticDigest_eq, PathPlan.computeSemanticDigest_eq, hplans]
  have hdigest : (makePathPlan sha request result sequence).semanticDigest =
      (makePathPlan sha request result' sequence').semanticDigest := by
    refine hword ?_
    simp only [PathPlan.semanticWord, listWord, List.flatMap_def, h.status, h.source,
      h.destination, h.evidence, h.candidates, hlength]
  refine ⟨hdigest, ?_⟩
  change (if (makePathPlan sha request result sequence).semanticDigest.isZero then default
    else FixedId.fromDigest (makePathPlan sha request result sequence).semanticDigest) =
      if (makePathPlan sha request result' sequence').semanticDigest.isZero then default
      else FixedId.fromDigest (makePathPlan sha request result' sequence').semanticDigest
  rw [hdigest]

end MakePathPlan

/-- What holds of every result that is published. -/
structure PlanningResult.IsProduced (sha : List UInt8 → Sha256Digest) (limits : ResourceLimits)
    (request : PlanningRequest) (result : PlanningResult) : Prop where
  sourceEndpoint_isValid : result.sourceEndpoint.isValid = true
  destinationEndpoint_isValid : result.destinationEndpoint.isValid = true
  sourceNode_isValid : result.sourceNode.isValid = true
  destinationNode_isValid : result.destinationNode.isValid = true
  candidates : ∀ c ∈ result.candidates, c.IsProduced sha result.evidence
  length_le : result.candidates.length ≤ limits.maxCandidatesPerRequest.toNat
  ranks : result.candidates.map (·.rank.value) = List.range' 1 result.candidates.length
  totals : result.candidates.Pairwise fun a b => a.cost.total ≤ b.cost.total
  occurrences_lt : ∀ rejection ∈ result.rejections, rejection.occurrences < 2 ^ 64
  plan : ∀ sequence, (makePathPlan sha request result sequence).semanticDigest =
      result.semanticDigest ∧ (makePathPlan sha request result sequence).id = result.planId

/-- Candidates in the order of a ranking do not get cheaper. -/
theorem IsRanking.totals {candidates : List Candidate} (h : IsRanking candidates) :
    candidates.Pairwise fun a b => a.cost.total ≤ b.cost.total := by
  refine h.increasing.imp fun {a b} hab => ?_
  rw [ranksBefore_iff, Candidate.rankingKey, Candidate.rankingKey, Prod.Lex.toLex_lt_toLex] at hab
  rcases hab with hlt | ⟨heq, -⟩
  · exact hlt.le
  · exact heq.le

namespace RuntimeState

variable {sha : List UInt8 → Sha256Digest} {capture : PlanCapture} {request : PlanningRequest}
  {compared published : RuntimeState}

/-- The result of a computation that passes all stages. -/
theorem planResult_of_ok (p : Passes sha capture request) :
    planResult sha capture request compared published =
      (publishPlan sha published capture request
        (compared.comparePlan capture ⟨p.snapshot, p.result, p.found.stats⟩)).1 := by
  unfold planResult
  rw [p.computePlan_eq]

/-- The comparison and the publication leave the ends and the evidence alone. -/
theorem planResult_ends_evidence (p : Passes sha capture request) :
    (planResult sha capture request compared published).ends = p.result.ends ∧
      (planResult sha capture request compared published).evidence = p.result.evidence := by
  rw [planResult_of_ok p]
  unfold publishPlan comparePlan
  split_ifs
  · exact ⟨rfl, rfl⟩
  · exact ⟨rfl, rfl⟩

/-- The comparison and the publication leave the rejections alone. -/
theorem planResult_rejections (p : Passes sha capture request) :
    (planResult sha capture request compared published).rejections = p.result.rejections := by
  rw [planResult_of_ok p]
  unfold publishPlan comparePlan
  split_ifs
  · rfl
  · rfl

/-- The comparison and the publication only mark the candidates. -/
theorem map_planResult (p : Passes sha capture request) {α : Type} {f : Candidate → α}
    (hf : IgnoresMarks f) : (planResult sha capture request compared published).candidates.map f =
      p.candidates.map f := by
  rw [planResult_of_ok p, map_publishPlan hf, map_comparePlan hf]
  rfl

/-- A published result names the plan that is made of it. -/
theorem planResult_plan (p : Passes sha capture request) (sequence : PlanPublishSequence) :
    (makePathPlan sha request (planResult sha capture request compared published)
        sequence).semanticDigest =
      (planResult sha capture request compared published).semanticDigest ∧
    (makePathPlan sha request (planResult sha capture request compared published) sequence).id =
      (planResult sha capture request compared published).planId := by
  have hpublished : planResult sha capture request compared published = _ := planResult_of_ok p
  have hsame : (planResult sha capture request compared published).SameMeaning
      (compared.comparePlan capture ⟨p.snapshot, p.result, p.found.stats⟩).result := by
    rw [hpublished]
    exact ⟨rfl, rfl, rfl, rfl, map_publishPlan (fun _ _ _ => rfl) _⟩
  have hcongr := makePathPlan_congr sha request hsame sequence capture.publishSequence
  rw [hcongr.1, hcongr.2, hpublished]
  exact ⟨rfl, rfl⟩

/-- **A result** is a refusal or produced. -/
theorem planResult_cases_produced :
    IsRefusal capture (planResult sha capture request compared published) ∨
      (planResult sha capture request compared published).IsProduced sha capture.limits request := by
  cases h : computePlan sha capture request with
  | error result =>
    refine Or.inl ?_
    unfold planResult
    rw [h]
    exact (computePlan_eq_error h).1
  | ok computed =>
    obtain ⟨p, -⟩ := computePlan_eq_ok h
    obtain ⟨hrecord, hnode⟩ := resolveEndpoint_eq_ok p.resolves_source
    obtain ⟨hrecord', hnode'⟩ := resolveEndpoint_eq_ok p.resolves_destination
    have hshape := firstProblem_eq_none_iff.mp (validateRequest_eq_none_iff.mp p.valid).1
    simp only [List.forall_mem_cons, Bool.not_eq_false'] at hshape
    obtain ⟨hends, hevidence⟩ := @planResult_ends_evidence sha capture request compared published p
    rw [p.ends_eq] at hends
    obtain ⟨hsourceEndpoint, hdestinationEndpoint, hsource, hdestination⟩ :=
      And.imp_right (And.imp_right Prod.mk.inj) (And.imp_right Prod.mk.inj (Prod.mk.inj hends))
    have hmap {α : Type} {f : Candidate → α} (hf : IgnoresMarks f) :=
      @map_planResult sha capture request compared published p α f hf
    have hlength := congrArg List.length (hmap (f := Candidate.core) fun _ _ _ => rfl)
    rw [List.length_map, List.length_map] at hlength
    refine Or.inr ⟨?_, ?_, ?_, ?_, fun c hc => ?_, ?_, ?_, ?_, ?_, planResult_plan p⟩
    · rw [hsourceEndpoint, (FabricSnapshot.findEndpoint_eq_some_iff.mp hrecord).2]
      exact hshape.2.1
    · rw [hdestinationEndpoint, (FabricSnapshot.findEndpoint_eq_some_iff.mp hrecord').2]
      exact hshape.2.2.1
    · rw [hsource]
      exact p.snapshot.nodes_valid _ (FabricSnapshot.findNode_eq_some_iff.mp hnode).1
    · rw [hdestination]
      exact p.snapshot.nodes_valid _ (FabricSnapshot.findNode_eq_some_iff.mp hnode').1
    · have hshown := hmap (f := fun c => (c.id, c.path, c.cost, c.evidence)) fun _ _ _ => rfl
      obtain ⟨d, hd, heq⟩ := List.mem_map.mp (hshown ▸ List.mem_map_of_mem hc)
      simp only [Prod.mk.injEq] at heq
      obtain ⟨hid, hpath, hcost, hevidence'⟩ := heq
      have hproduced := p.isProduced_of_mem hd
      rw [← hevidence] at hproduced
      exact ⟨by rw [← hid, ← hpath]; exact hproduced.id_eq,
        by rw [← hevidence']; exact hproduced.evidence_eq,
        hpath ▸ hproduced.isWellFormed, hpath ▸ hproduced.isSimple, hpath ▸ hproduced.layer_isKnown,
        hpath ▸ hproduced.nodes_isValid, hcost ▸ hproduced.cost_isCoherent,
        by rw [← hcost, ← hpath]; exact hproduced.hops_eq⟩
    · rw [hlength]
      exact p.length_candidates_le.trans (validateRequest_candidates p.valid).2
    · rw [hmap (f := fun c => c.rank.value) fun _ _ _ => rfl, hlength]
      exact p.isRanking.ranks
    · have htotals := p.isRanking.totals
      rw [← List.pairwise_map (f := fun c : Candidate => c.cost.total) (R := (· ≤ ·))] at htotals ⊢
      rwa [hmap (f := fun c => c.cost.total) fun _ _ _ => rfl]
    · rw [planResult_rejections p]
      exact p.occurrences_lt

end RuntimeState

end PathPlanner
