import PathPlanner.Planner.Outcome
import PathPlanner.Planner.TypedPath

/-!
# Ranked candidates

From the enumeration to the result the candidates are sorted, cut to the number requested, numbered,
described and shown to the Path Authority. None of these steps changes a path or a cost, and each
leaves the candidates in the strict order of the ranking, numbered from one.

## Main definitions

* `IsFoundPath`: the paths that the enumeration may return a candidate for
* `Candidate.core`: what no later step changes
* `IsRanking`: candidates that are numbered from one and strictly increasing

## Main results

* `findCandidates_sound`: every candidate found goes along a found path, and no two along the same
* `validateCandidates_isRanking`: the ranking survives the Path Authority
* `Passes.isRanking`, `Passes.along`: the candidates of a computation
-/

namespace PathPlanner

open SortedList Multigraph

/-! ## What is found -/

/-- A candidate path that visits the stages of required transit in order. It is the staged optimum
when there are such stages, and respects the member limit when there are none. -/
structure IsFoundPath (view : PlanningView) (request : PlanningRequest)
    (options : EnumerationOptions) (path : List ℕ) : Prop where
  candidate : IsCandidatePath view options.sourceView options.destinationView options.maxHops path
  visits : VisitsInOrder request.constraints.requiredTransit
    ((view.graph.nodes options.sourceView path).map fun v => (view.nodeAt v).id)
  staged : request.constraints.requiredTransit ≠ [] →
    IsStagedOptimum view options request.constraints.requiredTransit path
  memberLimit : request.constraints.requiredTransit = [] →
    ∀ limit ∈ request.constraints.maxMembersPerFailureDomain, MemberLimitRespected view limit.toNat
      request.constraints.failClosedOnUnknownDomains path

section Found

variable {sha : List UInt8 → Sha256Digest} {snapshot : FabricSnapshot} {limits : ResourceLimits}
  {request : PlanningRequest} {built : BuiltView}

/-- The candidates of the enumeration are those of the paths returned. -/
theorem enumerateCandidates_candidates :
    (enumerateCandidates sha limits request built).candidates =
      let enumeration := (enumerateCandidatePaths built.view request
        (enumerationOptions limits request built) (initialWork limits)).1
      if enumeration.ok || enumeration.resourceLimit then
        enumeration.paths.filterMap (candidateOf sha built.view)
      else [] := by
  unfold enumerateCandidates
  dsimp only
  split_ifs <;> rfl

/-- The path without hops is a found path between equal endpoints. -/
theorem isFoundPath_nil {view : PlanningView} {options : EnumerationOptions}
    (hends : options.sourceView = options.destinationView)
    (h : request.constraints.requiredTransit = []) : IsFoundPath view request options [] where
  candidate := ⟨trivial, hends, isSimple_nil, Or.inr (Nat.zero_le _)⟩
  visits := by
    rw [h]
    trivial
  staged hne := absurd h hne
  memberLimit _ limit _ := by simp [MemberLimitRespected]

variable (hv : IsCheckedView snapshot request limits built.view)
  (hsource : built.sourceView < built.view.nodeCount)

include hv hsource

/-- **What is found**: every candidate goes along a found path, and no two candidates rank the
same. -/
theorem findCandidates_sound :
    (∀ c ∈ (findCandidates sha limits request built).candidates, ∃ path,
      IsFoundPath built.view request (enumerationOptions limits request built) path ∧
        c.Along built.view built.sourceView path) ∧
      (findCandidates sha limits request built).candidates.Pairwise
        (·.rankingKey ≠ ·.rankingKey) := by
  unfold findCandidates
  dsimp only
  split_ifs with hzero hsame
  · -- one candidate without hops
    obtain ⟨heq, htransit, -⟩ := hzero
    rw [Bool.not_not, List.isEmpty_iff] at htransit
    refine ⟨fun c hc => ⟨[], isFoundPath_nil heq htransit, ?_⟩, ?_⟩
    · rw [Option.mem_toList, Option.map_eq_some_iff] at hc
      obtain ⟨cost, hcost, rfl⟩ := hc
      exact ⟨rfl, hcost⟩
    · cases built.view.computeRawPathCost ⟨[built.sourceView], []⟩ <;> simp
  · exact ⟨by simp, List.Pairwise.nil⟩
  · rw [enumerateCandidates_candidates]
    obtain ⟨paths, hpaths, hnodup, hall⟩ := enumerateCandidatePaths_sound
      (enumerationOptions limits request built) request (initialWork limits) hv.wellFormed
      hv.costCoherent hsource fun id v hi => ((hv.viewIndex_iff id v).mp hi).2
    have hfound : ∀ path ∈ paths,
        IsFoundPath built.view request (enumerationOptions limits request built) path := by
      intro path hp
      obtain ⟨hcandidate, hvisits, hstaged, hlimit⟩ := hall path hp
      exact ⟨hcandidate, hvisits, hstaged, fun ht limit hl =>
        hlimit ht (Option.isSome_of_mem hl) limit hl⟩
    have hcandidate : ∀ path ∈ paths, ∀ c,
        candidateOf sha built.view (built.view.rawPath built.sourceView path) = some c →
          c.Along built.view built.sourceView path := by
      intro path hp c hc
      have hcand := (hfound path hp).candidate
      rw [candidateOf_rawPath hv sha hsource hcand.isWalk hcand.isSimple,
        Option.map_eq_some_iff] at hc
      obtain ⟨cost, hcost, rfl⟩ := hc
      exact ⟨rfl, hcost⟩
    dsimp only
    split_ifs
    · rw [hpaths, List.filterMap_map]
      refine ⟨fun c hc => ?_, ?_⟩
      · obtain ⟨path, hp, hc⟩ := List.mem_filterMap.mp hc
        exact ⟨path, hfound path hp, hcandidate path hp c hc⟩
      · rw [List.pairwise_filterMap]
        refine hnodup.imp_of_mem fun {p q} hp hq hne a ha b hb hkey => hne ?_
        exact (hcandidate p hp a ha).rankingKey_inj hv (hcandidate q hq b hb)
          (hfound p hp).candidate.isWalk (hfound q hq).candidate.isWalk hkey
    · exact ⟨by simp, List.Pairwise.nil⟩

end Found

/-! ## Sorting and numbering -/

/-- The path and the cost of a candidate, which no later step changes. -/
def Candidate.core (c : Candidate) : CandidatePath × PathCost := (c.path, c.cost)

/-- Candidates that are numbered from one and strictly increasing under `ranksBefore`. -/
structure IsRanking (candidates : List Candidate) : Prop where
  ranks : candidates.map (·.rank.value) = List.range' 1 candidates.length
  increasing : candidates.Pairwise fun lhs rhs => ranksBefore lhs rhs = true

section Ranking

variable {candidates : List Candidate} {c : Candidate} {limit : ℕ}

/-- The ranking key is a function of the core. -/
theorem rankingKey_eq_of_core_eq {a b : Candidate} (h : a.core = b.core) :
    a.rankingKey = b.rankingKey := by
  obtain ⟨hpath, hcost⟩ := Prod.mk.inj h
  unfold Candidate.rankingKey
  rw [hpath, hcost]

/-- Cores in the order of a ranking are ranked. -/
theorem increasing_of_core_sublist {ranked : List Candidate}
    (h : ranked.Pairwise fun lhs rhs => ranksBefore lhs rhs = true)
    (hsub : (candidates.map Candidate.core).Sublist (ranked.map Candidate.core)) :
    candidates.Pairwise fun lhs rhs => ranksBefore lhs rhs = true := by
  let before : CandidatePath × PathCost → CandidatePath × PathCost → Prop := fun a b =>
    ∀ lhs rhs : Candidate, lhs.core = a → rhs.core = b → ranksBefore lhs rhs = true
  have hbefore : (ranked.map Candidate.core).Pairwise before := by
    rw [List.pairwise_map]
    refine h.imp fun {a b} hab lhs rhs hl hr => ?_
    rw [ranksBefore_iff] at hab ⊢
    rwa [rankingKey_eq_of_core_eq hl, rankingKey_eq_of_core_eq hr]
  exact (List.pairwise_map.mp (hbefore.sublist hsub)).imp fun hab => hab _ _ rfl rfl

theorem mem_of_mem_sortCandidates (h : c ∈ sortCandidates limit candidates) : c ∈ candidates :=
  (List.mergeSort_perm _ _).subset
    ((List.destutter_sublist _ _).subset (List.mem_of_mem_take h))

theorem length_sortCandidates_le : (sortCandidates limit candidates).length ≤ limit :=
  List.length_take_le _ _

/-- **Sorting** puts candidates that rank differently in strict order. -/
theorem pairwise_sortCandidates (h : candidates.Pairwise (·.rankingKey ≠ ·.rankingKey)) :
    (sortCandidates limit candidates).Pairwise fun lhs rhs => ranksBefore lhs rhs = true := by
  have hle : ∀ lhs rhs : Candidate, (!ranksBefore rhs lhs) = true ↔
      lhs.rankingKey ≤ rhs.rankingKey := fun lhs rhs => by
    rw [Bool.not_eq_true', ← Bool.not_eq_true, ranksBefore_iff, not_lt]
  have hsorted : (candidates.mergeSort fun lhs rhs => !ranksBefore rhs lhs).Pairwise
      fun lhs rhs => (!ranksBefore rhs lhs) = true :=
    List.pairwise_mergeSort
      (fun a b c hab hbc => (hle a c).mpr (((hle a b).mp hab).trans ((hle b c).mp hbc)))
      (fun a b => by
        rw [Bool.or_eq_true, hle, hle]
        exact le_total _ _) candidates
  have hne := h.perm (List.mergeSort_perm candidates fun lhs rhs => !ranksBefore rhs lhs).symm
    fun hab => hab.symm
  have hlt : (candidates.mergeSort fun lhs rhs => !ranksBefore rhs lhs).Pairwise
      fun lhs rhs => ranksBefore lhs rhs = true :=
    hsorted.imp₂ (fun a b hab hne => ranksBefore_iff.mpr (((hle a b).mp hab).lt_of_ne hne)) hne
  exact hlt.sublist ((List.take_sublist _ _).trans (List.destutter_sublist _ _))

/-- Numbering gives the ranks from one on. -/
theorem ranks_numberCandidates (h : candidates.length < 2 ^ 32) :
    (numberCandidates candidates).map (·.rank.value) =
      List.range' 1 (numberCandidates candidates).length := by
  have hlen : (numberCandidates candidates).length = candidates.length := List.length_mapIdx
  refine List.ext_getElem (by simp) fun i hi hi' => ?_
  rw [List.length_map, hlen] at hi
  simp only [numberCandidates, List.getElem_map, List.getElem_mapIdx, List.getElem_range', rankAt,
    StrongUInt.value_ofNat, one_mul]
  omega

/-- What a function reads is left alone by the steps after sorting. -/
def IgnoresVerdict {α : Type} (f : Candidate → α) : Prop :=
  ∀ (c : Candidate) (rank : CandidateRank) (authority : AuthorityValidation)
    (notes : List DiagnosticCode), f { c with rank, authority, notes } = f c

theorem ignoresVerdict_core : IgnoresVerdict Candidate.core := fun _ _ _ _ => rfl

/-- What a function reads is left alone by every step after the search. -/
def IgnoresDescription {α : Type} (f : Candidate → α) : Prop :=
  ∀ (c : Candidate) (rank : CandidateRank) (evidence : EvidenceVector)
    (provenance : CandidateProvenance) (authority : AuthorityValidation)
    (currentness : Currentness) (notes : List DiagnosticCode),
    f { c with rank, evidence, provenance, authority, currentness, notes } = f c

theorem ignoresDescription_core : IgnoresDescription Candidate.core := fun _ _ _ _ _ _ _ => rfl

theorem IgnoresDescription.ignoresVerdict {α : Type} {f : Candidate → α}
    (hf : IgnoresDescription f) : IgnoresVerdict f :=
  fun c rank authority notes => hf c rank c.evidence c.provenance authority c.currentness notes

theorem map_numberCandidates {α : Type} {f : Candidate → α} (hf : IgnoresVerdict f) :
    (numberCandidates candidates).map f = candidates.map f := by
  refine List.ext_getElem (by simp [numberCandidates]) fun i hi hi' => ?_
  simp only [numberCandidates, List.getElem_map, List.getElem_mapIdx]
  exact hf _ _ _ _

/-- **The candidates of a call are ranked**, when no two that were found rank the same. -/
theorem rankCandidates_isRanking (snapshot : FabricSnapshot) (request : PlanningRequest)
    (evidence : EvidenceVector) (provisional : Bool)
    (h : candidates.Pairwise (·.rankingKey ≠ ·.rankingKey)) :
    IsRanking (rankCandidates snapshot request evidence provisional candidates) where
  ranks := by
    have hlen : (sortCandidates request.maxCandidates.toNat candidates).length < 2 ^ 32 :=
      length_sortCandidates_le.trans_lt request.maxCandidates.toNat_lt
    have hranks := ranks_numberCandidates hlen
    unfold rankCandidates describeCandidates
    rw [List.map_map, List.length_map]
    exact hranks
  increasing := by
    have hsub : ((rankCandidates snapshot request evidence provisional candidates).map
        Candidate.core).Sublist
          ((sortCandidates request.maxCandidates.toNat candidates).map Candidate.core) := by
      unfold rankCandidates describeCandidates
      rw [List.map_map, ← map_numberCandidates ignoresVerdict_core]
      exact List.Sublist.refl _
    exact increasing_of_core_sublist (pairwise_sortCandidates h) hsub

end Ranking

/-! ## The Path Authority -/

section Authority

variable {authority : Option PathAuthority} {mode : AuthorityValidationMode} {view : PlanningView}
  {truncated : Bool} {result : PlanningResult} {candidates out : List Candidate}
  {α : Type} {f : Candidate → α}

/-- One verdict keeps the candidate or drops it. -/
theorem recordVerdict_sublist (hf : IgnoresVerdict f) (candidate : Candidate)
    (verdict : AuthorityValidation) (state : List Candidate × Bool) :
    ((recordVerdict mode candidate verdict state).1.map f).Sublist
      (state.1.map f ++ [f candidate]) := by
  have hkeep (notes : List DiagnosticCode) :
      ((state.1 ++ [{ candidate with authority := verdict, notes := notes }]).map f).Sublist
        (state.1.map f ++ [f candidate]) := by
    rw [List.map_append, List.map_singleton, hf candidate candidate.rank verdict notes]
  have hdrop : (state.1.map f).Sublist (state.1.map f ++ [f candidate]) :=
    List.sublist_append_left _ _
  cases verdict with
  | validated => exact hkeep candidate.notes
  | rejected => exact hdrop
  | unavailable | notRequested =>
    unfold recordVerdict
    dsimp only
    split_ifs
    · exact hkeep _
    · exact hdrop

/-- **Asking the authority** drops candidates, and keeps the others in order. -/
theorem askAuthority_sublist (hf : IgnoresVerdict f) (ask : PathAuthority)
    (evidence : EvidenceVector) :
    ((askAuthority ask mode evidence candidates).1.map f).Sublist (candidates.map f) := by
  suffices h : ∀ (indexed : List (Candidate × ℕ)) (state : List Candidate × Bool),
      ((indexed.foldl (fun state entry =>
        recordVerdict mode entry.1 (ask entry.2 entry.1.path evidence) state) state).1.map
          f).Sublist (state.1.map f ++ indexed.map fun entry => f entry.1) by
    have hall := h candidates.zipIdx ([], false)
    have hfst : candidates.zipIdx.map (fun entry => f entry.1) = candidates.map f := by
      rw [← Function.comp_def f Prod.fst, ← List.map_map, List.zipIdx_map_fst]
    rwa [hfst] at hall
  intro indexed
  induction indexed with
  | nil => simp
  | cons entry indexed ih =>
    intro state
    rw [List.foldl_cons, List.map_cons]
    refine (ih _).trans ?_
    rw [← List.singleton_append, ← List.append_assoc]
    exact (recordVerdict_sublist hf entry.1 _ state).append_right _

/-- **The step of the Path Authority** drops candidates, and keeps the others in order. -/
theorem validateCandidates_sublist (hf : IgnoresVerdict f)
    (h : validateCandidates authority mode view truncated result candidates = .ok out) :
    (out.map f).Sublist (candidates.map f) := by
  unfold validateCandidates at h
  split at h
  · rw [← Except.ok.inj h]
  · cases authority with
    | none =>
      dsimp only at h
      split_ifs at h
      rw [← Except.ok.inj h, List.map_map]
      have hmap : candidates.map (f ∘ fun candidate => { candidate with
          authority := .unavailable
          notes := candidate.notes ++ [.authorityValidationUnavailable] }) = candidates.map f :=
        List.map_congr_left fun c _ => hf c c.rank _ _
      rw [hmap]
    | some ask =>
      dsimp only at h
      split_ifs at h
      rw [← Except.ok.inj h, map_numberCandidates hf]
      exact askAuthority_sublist hf ask _

/-- **The ranking survives the Path Authority.** -/
theorem validateCandidates_isRanking (hr : IsRanking candidates)
    (hlen : candidates.length < 2 ^ 32)
    (h : validateCandidates authority mode view truncated result candidates = .ok out) :
    IsRanking out where
  ranks := by
    unfold validateCandidates at h
    split at h
    · rw [← Except.ok.inj h]
      exact hr.ranks
    · cases authority with
      | none =>
        dsimp only at h
        split_ifs at h
        rw [← Except.ok.inj h, List.map_map, List.length_map]
        exact hr.ranks
      | some ask =>
        dsimp only at h
        split_ifs at h
        have hsub : ((askAuthority ask mode result.evidence candidates).1.map
            Candidate.core).Sublist (candidates.map Candidate.core) :=
          askAuthority_sublist ignoresVerdict_core ask result.evidence
        have hle := hsub.length_le
        rw [List.length_map, List.length_map] at hle
        rw [← Except.ok.inj h]
        exact ranks_numberCandidates (hle.trans_lt hlen)
  increasing := increasing_of_core_sublist hr.increasing
    (validateCandidates_sublist ignoresVerdict_core h)

end Authority

/-! ## The candidates of a computation -/

/-- An endpoint that is resolved is published, and so is its node. -/
theorem resolveEndpoint_eq_ok {snapshot : FabricSnapshot} {ref : EndpointRef} {isSource : Bool}
    {resolved : ResolvedEndpoint} (h : resolveEndpoint snapshot ref isSource = .ok resolved) :
    snapshot.findEndpoint ref.id = some resolved.record ∧
      snapshot.findNode resolved.record.node = some resolved.node := by
  unfold resolveEndpoint at h
  dsimp only at h
  split at h
  · cases h
  · next record hrecord =>
    split at h
    · cases h
    split at h
    · cases h
    split at h
    · cases h
    · next node hnode =>
      obtain rfl := Except.ok.inj h
      exact ⟨hrecord, hnode⟩

/-- The view of a call is built from its snapshot between the resolved nodes. -/
theorem buildView_eq_ok {capture : PlanCapture} {request : PlanningRequest}
    {snapshot : FabricSnapshot} {result : PlanningResult} {built : BuiltView}
    (h : buildView capture request snapshot result = .ok built) :
    buildPlanningView snapshot request capture.limits result.sourceNode result.destinationNode =
      .ok built := by
  unfold buildView at h
  split at h
  · cases h
  · next built' hbuilt =>
    rw [← Except.ok.inj h]
    exact hbuilt

theorem buildView_of_ok {capture : PlanCapture} {request : PlanningRequest}
    {snapshot : FabricSnapshot} {result : PlanningResult} {built : BuiltView}
    (h : buildPlanningView snapshot request capture.limits result.sourceNode
      result.destinationNode = .ok built) :
    buildView capture request snapshot result = .ok built := by
  unfold buildView
  rw [h]

namespace Passes

variable {sha : List UInt8 → Sha256Digest} {capture : PlanCapture} {request : PlanningRequest}
  (p : Passes sha capture request)

/-- The view of a computation is built from the captured snapshot. -/
theorem buildPlanningView_eq : buildPlanningView p.snapshot request capture.limits p.source.node.id
    p.destination.node.id = .ok p.built :=
  buildView_eq_ok p.builds

/-- The view of a computation holds checked rows. -/
theorem isCheckedView : IsCheckedView p.snapshot request capture.limits p.built.view :=
  (buildPlanningView_isCheckedView p.buildPlanningView_eq).1

theorem source_lt : p.built.sourceView < p.built.view.nodeCount :=
  (buildPlanningView_isCheckedView p.buildPlanningView_eq).2.1.1

/-- The candidates before the Path Authority sees them. -/
theorem ranked_isRanking : IsRanking (rankedCandidates request p.snapshot p.built
    (resolvedResult capture request p.snapshot p.source p.destination).evidence p.found) :=
  rankCandidates_isRanking _ _ _ _ (findCandidates_sound p.isCheckedView p.source_lt).2

theorem length_ranked_lt : (rankedCandidates request p.snapshot p.built
    (resolvedResult capture request p.snapshot p.source p.destination).evidence
      p.found).length < 2 ^ 32 := by
  unfold rankedCandidates rankCandidates describeCandidates numberCandidates
  rw [List.length_map, List.length_mapIdx]
  exact length_sortCandidates_le.trans_lt request.maxCandidates.toNat_lt

/-- **The candidates of a computation are ranked.** -/
theorem isRanking : IsRanking p.candidates :=
  validateCandidates_isRanking p.ranked_isRanking p.length_ranked_lt p.validates

/-- A candidate that is ranked is one that was found, up to what the ranking adds. -/
theorem exists_found_of_ranked {α : Type} {f : Candidate → α} (hf : IgnoresDescription f)
    {c : Candidate} (hc : c ∈ rankedCandidates request p.snapshot p.built
      (resolvedResult capture request p.snapshot p.source p.destination).evidence p.found) :
    ∃ found ∈ p.found.candidates, f c = f found := by
  unfold rankedCandidates rankCandidates describeCandidates at hc
  obtain ⟨numbered, hn, rfl⟩ := List.mem_map.mp hc
  have hnumbered : f numbered ∈ (sortCandidates request.maxCandidates.toNat
      p.found.candidates).map f :=
    map_numberCandidates hf.ignoresVerdict ▸ List.mem_map_of_mem hn
  obtain ⟨found, hfound, hfeq⟩ := List.mem_map.mp hnumbered
  exact ⟨found, mem_of_mem_sortCandidates hfound, (hf ..).trans hfeq.symm⟩

/-- A candidate of a computation is one that was found, up to what the later steps add. -/
theorem exists_found {α : Type} {f : Candidate → α} (hf : IgnoresDescription f) {c : Candidate}
    (hc : c ∈ p.candidates) : ∃ found ∈ p.found.candidates, f c = f found := by
  have hmem := (validateCandidates_sublist hf.ignoresVerdict p.validates).subset
    (List.mem_map_of_mem hc)
  obtain ⟨ranked, hr, heq⟩ := List.mem_map.mp hmem
  obtain ⟨found, hfound, hranked⟩ := p.exists_found_of_ranked hf hr
  exact ⟨found, hfound, heq.symm.trans hranked⟩

/-- **A candidate of a computation** goes along a found path. -/
theorem along {c : Candidate} (hc : c ∈ p.candidates) : ∃ path,
    IsFoundPath p.built.view request (enumerationOptions capture.limits request p.built) path ∧
      c.Along p.built.view p.built.sourceView path := by
  obtain ⟨found, hf, hcore⟩ := p.exists_found ignoresDescription_core hc
  obtain ⟨path, hpath, halong⟩ :=
    (findCandidates_sound p.isCheckedView p.source_lt).1 found hf
  obtain ⟨hp, hcost⟩ := Prod.mk.inj hcore
  refine ⟨path, hpath, hp.trans halong.path_eq, ?_⟩
  rw [halong.cost_eq]
  exact congrArg some hcost.symm

/-- The candidates of a computation have different paths. -/
theorem nodup_paths : (p.candidates.map (·.path)).Nodup := by
  rw [List.nodup_iff_pairwise_ne, List.pairwise_map]
  refine p.isRanking.increasing.imp_of_mem fun {a b} ha hb hab hpath => ?_
  obtain ⟨s, hs, hsa⟩ := p.along ha
  obtain ⟨t, ht, htb⟩ := p.along hb
  -- equal paths go along one walk, so they have one cost
  have hst : s = t := by
    refine eq_of_links_eq p.isCheckedView hs.candidate.isWalk ht.candidate.isWalk ?_
    have hlinks := congrArg (fun path : CandidatePath => path.hops.map (·.link))
      (hsa.path_eq.symm.trans (hpath.trans htb.path_eq))
    simp only [hops_buildCandidatePath, List.map_map] at hlinks
    exact hlinks
  have hcost := hsa.cost_eq
  rw [hst, htb.cost_eq] at hcost
  rw [ranksBefore_iff, rankingKey_eq_of_core_eq (show a.core = b.core from
    Prod.ext hpath (Option.some.inj hcost).symm)] at hab
  exact lt_irrefl _ hab

end Passes

end PathPlanner
