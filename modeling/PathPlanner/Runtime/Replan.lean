import PathPlanner.Runtime.Produced
import PathPlanner.Runtime.Provisional
import PathPlanner.Snapshot.Encoding

/-!
# Replanning

`Replan` plans a request again and compares the answer with a prior plan: by the semantic digests,
and where these differ by the identities of the candidates, in their order and sorted. The digests and
the identities stand for the paths, so what is reported is how the paths of the two compare.

## Main definitions

* `replanReport`: what `Replan` reports about a prior plan and a new result
* `compareRoutes`: how the routes of two answers compare
* `DigestsApart`: no two different encodings or routes of the two share a digest

## Main results

* `PathPlan.of_semanticWord_eq`: what the semantic encoding of a plan determines
* `RuntimeState.replan_comparesRoutes`: **what is reported** is how the routes compare
-/

namespace PathPlanner

open SortedList

/-! ## The report -/

/-- `ReplanOutcome`. -/
inductive ReplanOutcome
  | unchanged
  | orderingChanged
  | candidateSetChanged
  | noPath
  | revalidationRequired
  deriving DecidableEq

/-- `ReplanReport`. -/
structure ReplanReport where
  outcome : ReplanOutcome := .unchanged
  changes : List ExplanationEntry := []
  priorDigest : Sha256Digest := default
  currentDigest : Sha256Digest := default
  sameSemanticPlan : Bool := false

/-- The part of `Replan` after the `Plan` call: what it returns, and its report. -/
def replanReport (prior : PathPlan) (result : PlanningResult) : Bool × ReplanReport :=
  let same := !prior.semanticDigest.isZero && prior.semanticDigest == result.semanticDigest
  let report : ReplanReport :=
    { priorDigest := prior.semanticDigest
      currentDigest := result.semanticDigest
      sameSemanticPlan := same
      changes := diffEvidence prior.evidence result.evidence }
  if result.status = .malformedRequest ∨ result.status = .unauthorized then
    (false, { report with outcome := .noPath })
  else if result.status = .revalidationRequired then
    (true, { report with outcome := .revalidationRequired })
  else if result.candidates.isEmpty then (true, { report with outcome := .noPath })
  else if same then (true, { report with outcome := .unchanged })
  else
    let priorIds : List CandidatePathId := prior.candidates.map (·.id)
    let currentIds : List CandidatePathId := result.candidates.map (·.id)
    if priorIds = currentIds then (true, { report with outcome := .unchanged })
    else if sortBy id priorIds = sortBy id currentIds then
      (true, { report with outcome := .orderingChanged })
    else (true, { report with outcome := .candidateSetChanged })

/-- `PlannerRuntime::Replan`, when no other call comes between its sections. -/
def RuntimeState.replan (sha : List UInt8 → Sha256Digest) (state : RuntimeState)
    (authority : PathAuthority) (prior : PathPlan) (request : PlanningRequest) :
    (Bool × ReplanReport) × RuntimeState :=
  let (result, state) := state.plan sha authority request
  (replanReport prior result, state)

/-- An uninterrupted call compares and publishes in the state that it has captured. -/
theorem RuntimeState.replan_report (sha : List UInt8 → Sha256Digest) (state : RuntimeState)
    (authority : PathAuthority) (prior : PathPlan) (request : PlanningRequest) :
    (state.replan sha authority prior request).1 =
      replanReport prior (planResult sha (state.capturePlan authority).1 request
        (state.capturePlan authority).2 (state.capturePlan authority).2) := by
  unfold replan plan planResult
  cases hcompute : computePlan sha (state.capturePlan authority).1 request with
  | error result =>
    dsimp only
    rw [hcompute]
  | ok computed =>
    dsimp only
    rw [hcompute]

/-! ## Routes -/

/-- The route of a path: the path without its operational evidence. -/
abbrev Candidate.route (c : Candidate) : CandidatePath := c.path.structural

/-- How the routes of two answers compare, in the order of their ranks. -/
def compareRoutes (prior current : List CandidatePath) : ReplanOutcome :=
  if current = [] then .noPath
  else if prior = current then .unchanged
  else if prior.Perm current then .orderingChanged
  else .candidateSetChanged

section Lists

variable {α β : Type*} {f : α → β} {l l' : List α}

/-- Lists whose elements a function tells apart are equal when their images are. -/
theorem eq_of_map_eq (hinj : ∀ a ∈ l, ∀ b ∈ l', f a = f b → a = b) (h : l.map f = l'.map f) :
    l = l' := by
  induction l generalizing l' with
  | nil => exact (List.map_eq_nil_iff.mp h.symm).symm
  | cons a l ih =>
    obtain ⟨b, rest, rfl, hb, hrest⟩ := List.map_eq_cons_iff.mp h.symm
    rw [hinj a List.mem_cons_self b List.mem_cons_self hb.symm]
    congr 1
    exact ih (fun a ha b hb => hinj a (List.mem_cons_of_mem _ ha) b (List.mem_cons_of_mem _ hb))
      hrest.symm

/-- Lists whose elements a function tells apart are permutations when their images are. -/
theorem perm_of_map_perm (hinj : ∀ a ∈ l, ∀ b ∈ l', f a = f b → a = b)
    (h : (l.map f).Perm (l'.map f)) : l.Perm l' := by
  induction l generalizing l' with
  | nil => rw [List.map_eq_nil_iff.mp (List.nil_perm.mp h)]
  | cons a l ih =>
    -- the partner of the first element is the element itself
    obtain ⟨b, hb, hab⟩ := List.mem_map.mp (h.subset (List.mem_map_of_mem List.mem_cons_self))
    obtain rfl := hinj a List.mem_cons_self b hb hab.symm
    obtain ⟨before, after, rfl⟩ := List.append_of_mem hb
    refine (List.Perm.cons a (ih (fun c hc d hd => ?_) ?_)).trans List.perm_middle.symm
    · refine hinj c (List.mem_cons_of_mem _ hc) d ?_
      rcases List.mem_append.mp hd with hd | hd
      · exact List.mem_append_left _ hd
      · exact List.mem_append_right _ (List.mem_cons_of_mem _ hd)
    · have hmiddle : ((before ++ a :: after).map f).Perm (f a :: (before ++ after).map f) :=
        List.perm_middle.map f
      exact List.Perm.cons_inv (h.trans hmiddle)

end Lists

/-! ## What the digest stands for -/

theorem EvidenceVector.word_selfDelimiting :
    SelfDelimiting (fun _ => True) EvidenceVector.word := by
  have h := (((id_determines (P := fun _ => True) EvidenceVector.snapshot).append
    (SnapshotGenerations.word_selfDelimiting.field EvidenceVector.generations
      fun _ _ => trivial)).append
    (enum_determines (fun source => by cases source <;> decide) EvidenceSource.value_injective
      EvidenceVector.source)).append (u64_determines EvidenceVector.publishSequence)
  refine h.mono ?_
  rintro ⟨⟩ ⟨⟩ - - ⟨⟨⟨rfl, rfl⟩, rfl⟩, rfl⟩
  rfl

/-- The word of a candidate begins with its identity, and has a fixed length. -/
theorem Candidate.semanticWord_determines :
    Determines (fun _ => True) (fun a b : Candidate => a.id = b.id) Candidate.semanticWord := by
  have h := ((((((id_determines (P := fun _ => True) Candidate.id).append
    (u64_determines (·.cost.total))).append (u32_determines (·.cost.hops))).append
    (u64_determines (·.cost.staticCost))).append (u64_determines (·.cost.degradedPenalty))).append
    (u64_determines (·.cost.localityPenalty))).append (u32_determines Candidate.rank)
  refine h.mono ?_
  rintro _ _ - - ⟨⟨⟨⟨⟨⟨hid, -⟩, -⟩, -⟩, -⟩, -⟩, -⟩
  exact hid

/-- **The semantic encoding** determines the evidence of a plan and the identities of its
candidates. -/
theorem PathPlan.of_semanticWord_eq {plan plan' : PathPlan} (h : plan.semanticWord = plan'.semanticWord)
    (hlength : plan.candidates.length < 2 ^ 64) (hlength' : plan'.candidates.length < 2 ^ 64) :
    plan.evidence = plan'.evidence ∧
      plan.candidates.map (·.id) = plan'.candidates.map (·.id) := by
  have hfixed {E : Type} [WireEnum E] (get : PathPlan → E) :
      Determines (fun _ => True) (fun a b => WireEnum.word (get a) = WireEnum.word (get b))
        fun plan => WireEnum.word (get plan) := .of_length fun _ _ => length_littleEndian ..
  -- the parts before the candidates
  have hhead := ((((((((((((Determines.literal (P := fun _ : PathPlan => True)
    (littleEndian 4 planningRuleVersion)).append
    (.literal (littleEndian 4 planDigestSchemeVersion))).append
    (id_determines PathPlan.request)).append (id_determines PathPlan.source)).append
    (id_determines PathPlan.destination)).append (hfixed PathPlan.layer)).append
    (hfixed PathPlan.status)).append
    (boolWord_selfDelimiting.field PathPlan.diagnosticMode fun _ _ => trivial)).append
    (EvidenceVector.word_selfDelimiting.field PathPlan.evidence fun _ _ => trivial)).append
    (u64_determines PathPlan.policyGeneration)).append
    (id_determines PathPlan.constraintSet)).append (u64_determines PathPlan.constraintGeneration))
  obtain ⟨⟨⟨⟨⟨-, hevidence⟩, -⟩, -⟩, -⟩, hrest⟩ := hhead plan plan' _ _ trivial trivial h
  obtain ⟨hcount, hwords⟩ := varWord_selfDelimiting _ _ _ _ hlength hlength' hrest
  have hids := (Candidate.semanticWord_determines.flatMap (fun _ _ => trivial) (fun _ _ => trivial)
    hcount (congrArg (· ++ []) hwords)).1
  refine ⟨hevidence, ?_⟩
  rw [← List.forall₂_eq_eq_eq, List.forall₂_map_left_iff, List.forall₂_map_right_iff]
  exact hids

/-! ## What is reported -/

/-- The identities and the digest of a plan are those of its content. -/
structure PathPlan.IsOwn (sha : List UInt8 → Sha256Digest) (plan : PathPlan) : Prop where
  ids : ∀ c ∈ plan.candidates, c.id = c.path.id sha
  digest : plan.semanticDigest = plan.computeSemanticDigest sha
  length_lt : plan.candidates.length < 2 ^ 64

theorem semanticDigest_makePathPlan (sha : List UInt8 → Sha256Digest) (request : PlanningRequest)
    (result : PlanningResult) (sequence : PlanPublishSequence) :
    (makePathPlan sha request result sequence).semanticDigest =
      (makePathPlan sha request result sequence).computeSemanticDigest sha := rfl

/-- No two different routes of the plans share an identity, and the plans do not share a digest
unless they have one encoding. -/
structure DigestsApart (sha : List UInt8 → Sha256Digest) (prior plan : PathPlan) : Prop where
  routes : ∀ c ∈ prior.candidates, ∀ d ∈ plan.candidates,
    c.path.id sha = d.path.id sha → c.route = d.route
  encodings : sha prior.semanticWord = sha plan.semanticWord →
    prior.semanticWord = plan.semanticWord

/-- The identities of candidates are those of their routes. -/
theorem map_id_eq {sha : List UInt8 → Sha256Digest} {candidates : List Candidate}
    (h : ∀ c ∈ candidates, c.id = c.path.id sha) :
    candidates.map (·.id) = (candidates.map Candidate.route).map (CandidatePath.id sha) := by
  rw [List.map_map]
  refine List.map_congr_left fun c hc => ?_
  rw [h c hc]
  exact (CandidatePath.id_structural sha c.path).symm

section Comparison

variable {sha : List UInt8 → Sha256Digest} {prior : PathPlan} {result : PlanningResult}

/-- The two comparisons of the identities compare the routes. -/
theorem ids_compare (hprior : prior.IsOwn sha) (hids : ∀ c ∈ result.candidates, c.id = c.path.id sha)
    (hroutes : ∀ c ∈ prior.candidates, ∀ d ∈ result.candidates,
      c.path.id sha = d.path.id sha → c.route = d.route) :
    (prior.candidates.map (·.id) = result.candidates.map (·.id) ↔
      prior.candidates.map Candidate.route = result.candidates.map Candidate.route) ∧
    (sortBy id (prior.candidates.map (·.id)) = sortBy id (result.candidates.map (·.id)) ↔
      (prior.candidates.map Candidate.route).Perm (result.candidates.map Candidate.route)) := by
  have hinj : ∀ a ∈ prior.candidates.map Candidate.route,
      ∀ b ∈ result.candidates.map Candidate.route, a.id sha = b.id sha → a = b := by
    intro a ha b hb heq
    obtain ⟨c, hc, rfl⟩ := List.mem_map.mp ha
    obtain ⟨d, hd, rfl⟩ := List.mem_map.mp hb
    rw [CandidatePath.id_structural, CandidatePath.id_structural] at heq
    exact hroutes c hc d hd heq
  rw [map_id_eq hprior.ids, map_id_eq hids]
  refine ⟨⟨eq_of_map_eq hinj, congrArg _⟩, ⟨fun h => perm_of_map_perm hinj ?_, fun h => ?_⟩⟩
  · exact ((perm_sortBy id _).symm.trans (.of_eq h)).trans (perm_sortBy id _)
  · exact sortBy_id_eq_of_perm (h.map _)

end Comparison

namespace RuntimeState

variable {sha : List UInt8 → Sha256Digest} {capture : PlanCapture} {request : PlanningRequest}
  {compared published : RuntimeState} {prior : PathPlan}

/-- A result with candidates is not refused. -/
theorem status_of_candidates (hne : (planResult sha capture request compared published).candidates ≠ []) :
    (planResult sha capture request compared published).status ≠ .malformedRequest ∧
      (planResult sha capture request compared published).status ≠ .unauthorized := by
  cases hcompute : computePlan sha capture request with
  | error result =>
    unfold planResult at hne
    rw [hcompute] at hne
    exact absurd (computePlan_eq_error hcompute).1.candidates hne
  | ok computed =>
    rw [(planResult_eq hcompute).1]
    obtain ⟨p, rfl⟩ := computePlan_eq_ok hcompute
    unfold comparePlan
    split_ifs
    · exact ⟨PlanStatus.noConfusion, PlanStatus.noConfusion⟩
    · have hmap : (planResult sha capture request compared published).candidates.map
          (fun _ => ()) = p.candidates.map fun _ => () :=
        map_planResult p fun _ _ _ => rfl
      have hcandidates : p.candidates ≠ [] := fun hnil => by
        rw [hnil, List.map_nil, List.map_eq_nil_iff] at hmap
        exact hne hmap
      dsimp only
      rw [p.status_eq hcandidates]
      split_ifs
      all_goals exact ⟨PlanStatus.noConfusion, PlanStatus.noConfusion⟩

/-- A plan that is called the same has the same evidence and the same routes. -/
theorem routes_eq_of_sameSemanticPlan (hprior : prior.IsOwn sha) {sequence : PlanPublishSequence}
    (hapart : DigestsApart sha prior
      (makePathPlan sha request (planResult sha capture request compared published) sequence))
    (hsame : (!prior.semanticDigest.isZero && prior.semanticDigest ==
      (planResult sha capture request compared published).semanticDigest) = true) :
    prior.evidence = (planResult sha capture request compared published).evidence ∧
      prior.candidates.map (·.id) =
        (planResult sha capture request compared published).candidates.map (·.id) := by
  rw [Bool.and_eq_true, Bool.not_eq_true', beq_iff_eq] at hsame
  obtain ⟨hnonzero, hdigest⟩ := hsame
  rcases @planResult_cases_produced sha capture request compared published with hrefusal | hproduced
  · -- a refusal has no digest
    rw [hdigest, hrefusal.semanticDigest] at hnonzero
    exact absurd hnonzero (by decide +kernel)
  · have hword : sha prior.semanticWord = sha (makePathPlan sha request
        (planResult sha capture request compared published) sequence).semanticWord := by
      rw [← PathPlan.computeSemanticDigest_eq sha prior, ← hprior.digest, hdigest,
        ← (hproduced.plan sequence).1]
      exact PathPlan.computeSemanticDigest_eq sha _
    exact PathPlan.of_semanticWord_eq (hapart.encodings hword) hprior.length_lt
      (hproduced.length_le.trans_lt (ByteReader.ceiling_lt _))

/-- **Replanning reports how the routes compare**, whatever sections of other calls come between
those of its own: it asks for revalidation when the new result does, and otherwise says whether the
routes of the prior plan are the same ones in the same order, the same ones in another order, or
others. A plan that it calls the same has the same routes and the same evidence, so that no change is
reported with it. -/
theorem replan_comparesRoutes (hprior : prior.IsOwn sha) (sequence : PlanPublishSequence)
    (hapart : DigestsApart sha prior
      (makePathPlan sha request (planResult sha capture request compared published) sequence)) :
    (replanReport prior (planResult sha capture request compared published)).2.outcome =
        (if (planResult sha capture request compared published).status = .revalidationRequired then
          .revalidationRequired
        else compareRoutes (prior.candidates.map Candidate.route)
          ((planResult sha capture request compared published).candidates.map Candidate.route)) ∧
      ((replanReport prior (planResult sha capture request compared published)).2.sameSemanticPlan =
          true →
        prior.candidates.map Candidate.route =
            (planResult sha capture request compared published).candidates.map Candidate.route ∧
          (replanReport prior (planResult sha capture request compared published)).2.changes =
            []) := by
  have hids : ∀ c ∈ (planResult sha capture request compared published).candidates,
      c.id = c.path.id sha := by
    rcases @planResult_cases_produced sha capture request compared published with
      hrefusal | hproduced
    · rw [hrefusal.candidates]
      exact List.forall_mem_nil _
    · exact fun c hc => (hproduced.candidates c hc).id_eq
  have hstatus := @status_of_candidates sha capture request compared published
  have hsame := @routes_eq_of_sameSemanticPlan sha capture request compared published prior hprior
    sequence hapart
  obtain ⟨hsorted, hperm⟩ := ids_compare hprior hids hapart.routes
  generalize planResult sha capture request compared published = result at *
  have hchanges : (replanReport prior result).2.changes = diffEvidence prior.evidence result.evidence ∧
      (replanReport prior result).2.sameSemanticPlan =
        (!prior.semanticDigest.isZero && prior.semanticDigest == result.semanticDigest) := by
    unfold replanReport
    dsimp only
    split_ifs <;> exact ⟨rfl, rfl⟩
  constructor
  · unfold replanReport compareRoutes
    dsimp only
    by_cases hnil : result.candidates = []
    · -- nothing is left to compare
      simp only [hnil, List.isEmpty_nil, List.map_nil, if_true]
      split_ifs with hrefused hrevalidation
      · rcases hrefused with h | h
        · cases h.symm.trans hrevalidation
        · cases h.symm.trans hrevalidation
      · rfl
      · rfl
      · rfl
    · have hne : result.candidates.map Candidate.route ≠ [] := mt List.map_eq_nil_iff.mp hnil
      obtain ⟨hmalformed, hunauthorized⟩ := hstatus hnil
      rw [if_neg (not_or.mpr ⟨hmalformed, hunauthorized⟩), List.isEmpty_eq_false_iff.mpr hnil,
        if_neg Bool.false_ne_true, if_neg hne]
      simp only [hsorted, hperm]
      split_ifs with hrevalidation hdigests hroutes
      · rfl
      · rfl
      · exact absurd (hsorted.mp (hsame hdigests).2) hroutes
      · exact absurd (hsorted.mp (hsame hdigests).2) hroutes
      all_goals rfl
  · intro hflag
    rw [hchanges.2] at hflag
    obtain ⟨hevidence, hsameIds⟩ := hsame hflag
    refine ⟨hsorted.mp hsameIds, ?_⟩
    rw [hchanges.1, hevidence, diffEvidence_eq_nil_iff]
    exact ⟨classifyEvidence_eq_current_iff.mpr rfl, rfl, rfl⟩

/-- A path over a single link is planned. -/
def singleLinkCapture : PlanCapture × RuntimeState :=
  (runtimeOver singleLink).capturePlan fun _ _ _ => .notRequested

/-- What the call returns. -/
def singleLinkResult : PlanningResult :=
  planResult constantHash singleLinkCapture.1 (.between 1 2) singleLinkCapture.2 singleLinkCapture.2

/-- The plan made of it. -/
def singleLinkPlan : PathPlan := makePathPlan constantHash (.between 1 2) singleLinkResult (.ofNat 0)

/-- What is reported when it is planned again. -/
def singleLinkReplan : Bool × ReplanReport :=
  ((runtimeOver singleLink).replan constantHash (fun _ _ _ => .notRequested) singleLinkPlan
    (.between 1 2)).1

theorem replan_comparesRoutes_singleLink :
    singleLinkReplan.2.outcome =
        (if singleLinkResult.status = .revalidationRequired then .revalidationRequired
        else compareRoutes (singleLinkPlan.candidates.map Candidate.route)
          (singleLinkResult.candidates.map Candidate.route)) ∧
      (singleLinkReplan.2.sameSemanticPlan = true →
        singleLinkPlan.candidates.map Candidate.route =
            singleLinkResult.candidates.map Candidate.route ∧
          singleLinkReplan.2.changes = []) := by
  have hown : singleLinkPlan.IsOwn constantHash :=
    ⟨by decide +kernel, semanticDigest_makePathPlan .., by decide +kernel⟩
  have hroutes : ∀ c ∈ singleLinkPlan.candidates, ∀ d ∈ singleLinkPlan.candidates,
      c.route = d.route := by decide +kernel
  have hreport : singleLinkReplan = replanReport singleLinkPlan singleLinkResult :=
    replan_report constantHash (runtimeOver singleLink) _ singleLinkPlan (.between 1 2)
  rw [hreport]
  exact replan_comparesRoutes hown (.ofNat 0) ⟨fun c hc d hd _ => hroutes c hc d hd, fun _ => rfl⟩

end RuntimeState

end PathPlanner
