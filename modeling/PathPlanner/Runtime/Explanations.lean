import PathPlanner.Runtime.AuthorityFilter
import PathPlanner.View.Abridged

/-!
# Limits on explanations

Two runtimes whose limits differ in the bound on explanations alone find the same candidates. When
none is left, the failure may be classified from the log of rejections, and the log under the smaller
bound may be full before the cause that comes first is recorded.

## Main definitions

* `SameVerdict`: results that differ in their rejections alone
* `RecordsFirstCause`: the first cause of the longer log is one of the shorter log
* `Reaches.IsClassifiedByLog`: a call whose failure is classified from the log

## Main results

* `RuntimeState.planResult_sameVerdict_iff`: **when the bound does not change the verdict**
-/

namespace PathPlanner

/-- The capture under limits with another bound on explanations. -/
def PlanCapture.withExplanations (capture : PlanCapture) (entries : UInt32) : PlanCapture :=
  { capture with limits := capture.limits.withExplanations entries }

/-- The runtime under limits with another bound on explanations. -/
def RuntimeState.withExplanations (state : RuntimeState) (entries : UInt32) : RuntimeState :=
  { state with limits := state.limits.withExplanations entries }

/-- The results differ in their rejections alone, and the first one shows a part of those of the
second. -/
structure SameVerdict (shorter longer : PlanningResult) : Prop where
  others : { shorter with rejections := longer.rejections } = longer
  rejections : shorter.rejections.Sublist longer.rejections

theorem SameVerdict.refl (result : PlanningResult) : SameVerdict result result :=
  ⟨rfl, List.Sublist.refl _⟩

/-- The first of the causes that is recorded is also recorded under the smaller bound: it is counted,
or it is among the first entries. -/
def RecordsFirstCause (snapshot : FabricSnapshot) (request : PlanningRequest)
    (limits : ResourceLimits) (entries : UInt32) (causes : List DiagnosticCode) : Prop :=
  ∀ code, causes.find? (fun cause => cause ∈ countedCodes snapshot request limits ∨
      cause ∈ (listedCodes snapshot request limits).take
        (max 1 limits.maxExplanationEntries.toNat)) = some code →
    code ∈ countedCodes snapshot request limits ∨
      code ∈ (listedCodes snapshot request limits).take (max 1 entries.toNat)

/-- Where there is room for everything, the first cause is recorded. -/
theorem recordsFirstCause_of_length_le {snapshot : FabricSnapshot} {request : PlanningRequest}
    {limits : ResourceLimits} {entries : UInt32} {causes : List DiagnosticCode}
    (h : (listedCodes snapshot request limits).length ≤ max 1 entries.toNat) :
    RecordsFirstCause snapshot request limits entries causes := by
  intro code hcode
  rw [List.take_of_length_le h]
  have hrecorded := List.find?_some hcode
  rw [decide_eq_true_eq] at hrecorded
  exact hrecorded.imp_right List.mem_of_mem_take

/-! ## What is found -/

section Found

variable {sha : List UInt8 → Sha256Digest} {limits : ResourceLimits} {request : PlanningRequest}
  {built : BuiltView} {entries : UInt32} {log : RejectionLog}

/-- **The same candidates** are found under another bound on explanations. -/
theorem findCandidates_withExplanations :
    findCandidates sha (limits.withExplanations entries) request
        (built.withExplanations entries log) =
      findCandidates sha limits request built := by
  have henumeration : enumerateCandidatePaths (built.withExplanations entries log).view request
      (enumerationOptions (limits.withExplanations entries) request
        (built.withExplanations entries log)) (initialWork (limits.withExplanations entries)) =
      enumerateCandidatePaths built.view request (enumerationOptions limits request built)
        (initialWork limits) :=
    enumerateCandidatePaths_reconfigured rfl rfl (Or.inl rfl)
  have hcandidates : enumerateCandidates sha (limits.withExplanations entries) request
      (built.withExplanations entries log) = enumerateCandidates sha limits request built := by
    unfold enumerateCandidates
    rw [henumeration]
    rfl
  unfold findCandidates
  rw [hcandidates]
  rfl

/-- **The Path Authority** gives the same answers; a refusal shows a part of the rejections. -/
theorem validateCandidates_withExplanations {authority : Option PathAuthority}
    {mode : AuthorityValidationMode} {truncated : Bool} {result : PlanningResult}
    {candidates : List Candidate} (h : log.Abridges built.view.rejections) :
    match validateCandidates authority mode built.view truncated result candidates with
    | .ok out => validateCandidates authority mode (built.withExplanations entries log).view
        truncated result candidates = .ok out
    | .error final => ∃ final', validateCandidates authority mode
        (built.withExplanations entries log).view truncated result candidates = .error final' ∧
          SameVerdict final' final := by
  unfold validateCandidates
  by_cases hskip : mode = .none ∨ candidates.isEmpty = true
  · rw [if_pos hskip]
    exact if_pos hskip
  rw [if_neg hskip]
  rw [if_neg hskip]
  cases authority with
  | none =>
    dsimp only
    by_cases hrequired : mode = .required
    · rw [if_pos hrequired]
      exact ⟨_, rfl, .refl _⟩
    · rw [if_neg hrequired]
  | some ask =>
    dsimp only
    by_cases hlost : ((askAuthority ask mode result.evidence candidates).1.isEmpty &&
        (askAuthority ask mode result.evidence candidates).2) = true
    · rw [if_pos hlost]
      exact ⟨_, if_pos hlost, rfl, h.render⟩
    · rw [if_neg hlost]
      exact if_neg hlost

/-- Two views record the same first cause exactly when the shorter log records that of the longer
one. -/
theorem primaryFailure_eq_iff {small large : RejectionLog} (h : small.Abridges large)
    {reachable : Bool} : primaryFailure small reachable = primaryFailure large reachable ↔
      ∀ code, (if reachable then exclusionCauses else structuralCauses).find? large.contains =
        some code → small.contains code = true := by
  rw [← h.find?_eq_iff]
  unfold primaryFailure
  dsimp only
  -- the diagnostic of no cause is none of the causes
  have hother : DiagnosticCode.noStructuralPath ∉
      (if reachable then exclusionCauses else structuralCauses) := by
    cases reachable <;> decide
  generalize (if reachable then exclusionCauses else structuralCauses) = causes at hother ⊢
  have hne {log : RejectionLog} {code : DiagnosticCode}
      (hcode : causes.find? log.contains = some code) : code ≠ .noStructuralPath :=
    fun heq => hother (heq ▸ List.mem_of_find?_eq_some hcode)
  refine ⟨fun heq => ?_, fun heq => by rw [heq]⟩
  cases hsmall : causes.find? small.contains with
  | none =>
    cases hlarge : causes.find? large.contains with
    | none => rfl
    | some code =>
      rw [hsmall, hlarge] at heq
      exact absurd heq.symm (hne hlarge)
  | some code =>
    cases hlarge : causes.find? large.contains with
    | none =>
      rw [hsmall, hlarge] at heq
      exact absurd heq (hne hsmall)
    | some code' =>
      rw [hsmall, hlarge] at heq
      exact congrArg some heq

end Found

/-! ## Calls -/

namespace Reaches

variable (sha : List UInt8 → Sha256Digest) {capture : PlanCapture} {request : PlanningRequest}
  {entries : UInt32} {log : RejectionLog} (r : Reaches capture request)

/-- The structural distance between the endpoints. -/
def distance : Option ℕ :=
  structuralHopDistance r.snapshot r.resolved.sourceNode r.resolved.destinationNode request

/-- The causes that a failure of the call is looked for among. -/
def causes : List DiagnosticCode :=
  if r.distance.isSome then exclusionCauses else structuralCauses

/-- Nothing is left of what the call found, and neither a failure of the enumeration nor the bound on
the hops explains it. -/
structure IsClassifiedByLog : Prop where
  lost : validateCandidates capture.authority request.policy.authorityValidation r.built.view
    (r.found sha).truncated r.resolved (r.ranked sha) = .ok []
  undecided : ∀ code ∈ (r.found sha).failure, code = .noStructuralPath
  withinHops : ∀ d ∈ r.distance, ∀ hops ∈ request.constraints.maxHops, d ≤ hops.value

variable {sha}

/-- The stages of the call under another bound on explanations. -/
def withExplanations (h : buildPlanningView r.snapshot request
    (capture.limits.withExplanations entries) r.resolved.sourceNode r.resolved.destinationNode =
      .ok (r.built.withExplanations entries log)) :
    Reaches (capture.withExplanations entries) request where
  snapshot := r.snapshot
  source := r.source
  destination := r.destination
  built := r.built.withExplanations entries log
  checked := r.checked
  resolves_source := r.resolves_source
  resolves_destination := r.resolves_destination
  builds := buildView_of_ok h

/-- A view that cannot be built is refused alike under a smaller bound. -/
theorem buildView_of_error (h : entries ≤ capture.limits.maxExplanationEntries)
    {snapshot : FabricSnapshot} {result final : PlanningResult}
    (hbuild : buildView capture request snapshot result = .error final) :
    buildView (capture.withExplanations entries) request snapshot result = .error final := by
  have hviews := @buildPlanningView_withExplanations snapshot request capture.limits entries
    result.sourceNode result.destinationNode h
  unfold buildView at hbuild ⊢
  rw [show (capture.withExplanations entries).limits = capture.limits.withExplanations entries
    from rfl]
  cases hbuilt : buildPlanningView snapshot request capture.limits result.sourceNode
      result.destinationNode with
  | ok built =>
    rw [hbuilt] at hbuild
    cases hbuild
  | error failure =>
    rw [hbuilt] at hbuild hviews
    rw [hviews]
    exact hbuild

/-- Under a smaller bound a call that reaches the enumeration does so with a shorter log. -/
theorem exists_log (h : entries ≤ capture.limits.maxExplanationEntries) :
    ∃ log : RejectionLog,
      buildPlanningView r.snapshot request (capture.limits.withExplanations entries)
          r.resolved.sourceNode r.resolved.destinationNode =
        .ok (r.built.withExplanations entries log) ∧
      log.Abridges r.built.view.rejections := by
  have hviews := @buildPlanningView_withExplanations r.snapshot request capture.limits entries
    r.resolved.sourceNode r.resolved.destinationNode h
  have hbuilt : buildPlanningView r.snapshot request capture.limits r.resolved.sourceNode
    r.resolved.destinationNode = .ok r.built := buildView_eq_ok r.builds
  rw [hbuilt] at hviews
  exact hviews

variable (sha) in
/-- **Under a smaller bound** a call is refused alike, or reaches the enumeration. -/
theorem computePlan_cases (h : entries ≤ capture.limits.maxExplanationEntries) :
    (∃ result, computePlan sha capture request = .error result ∧
      computePlan sha (capture.withExplanations entries) request = .error result) ∨
    Nonempty (Reaches capture request) := by
  have hsame : checkRequest (capture.withExplanations entries) request =
      checkRequest capture request := rfl
  unfold computePlan
  rw [hsame]
  cases hchecked : checkRequest capture request with
  | error result => exact Or.inl ⟨result, rfl, rfl⟩
  | ok snapshot =>
    change (∃ result, (resolveEndpoint snapshot request.source true >>= _) = _ ∧
      (resolveEndpoint snapshot request.source true >>= _) = _) ∨ _
    cases hsource : resolveEndpoint snapshot request.source true with
    | error result => exact Or.inl ⟨result, rfl, rfl⟩
    | ok source =>
      change (∃ result, (resolveEndpoint snapshot request.destination false >>= _) = _ ∧
        (resolveEndpoint snapshot request.destination false >>= _) = _) ∨ _
      cases hdestination : resolveEndpoint snapshot request.destination false with
      | error result => exact Or.inl ⟨result, rfl, rfl⟩
      | ok destination =>
        cases hbuilt : buildView capture request snapshot
            (resolvedResult capture request snapshot source destination) with
        | error result =>
          refine Or.inl ⟨result, ?_, ?_⟩
          · change (buildView capture request snapshot _ >>= _) = _
            rw [hbuilt]
            rfl
          · change (buildView (capture.withExplanations entries) request snapshot
              (resolvedResult capture request snapshot source destination) >>= _) = _
            rw [buildView_of_error h hbuilt]
            rfl
        | ok built =>
          exact Or.inr ⟨⟨snapshot, source, destination, built, hchecked, hsource, hdestination,
            hbuilt⟩⟩

section Bounded

variable (hview : buildPlanningView r.snapshot request (capture.limits.withExplanations entries)
  r.resolved.sourceNode r.resolved.destinationNode = .ok (r.built.withExplanations entries log))

theorem found_withExplanations : (r.withExplanations hview).found sha = r.found sha :=
  findCandidates_withExplanations

theorem ranked_withExplanations : (r.withExplanations hview).ranked sha = r.ranked sha := by
  unfold ranked
  rw [r.found_withExplanations hview]
  rfl

/-- A call that loses its candidates looks at the log only for a cause. -/
theorem emptyOutcome_withExplanations (hcause : (∀ code ∈ (r.found sha).failure,
      code = .noStructuralPath) → (∀ d ∈ r.distance, ∀ hops ∈ request.constraints.maxHops,
        d ≤ hops.value) → primaryFailure log r.distance.isSome =
          primaryFailure r.built.view.rejections r.distance.isSome) :
    emptyOutcome r.snapshot request (r.built.withExplanations entries log).view (r.found sha)
        { r.resolved with truncated := (r.found sha).truncated } =
      emptyOutcome r.snapshot request r.built.view (r.found sha)
        { r.resolved with truncated := (r.found sha).truncated } := by
  have hlog : (r.built.withExplanations entries log).view.rejections = log := rfl
  have hdistance : structuralHopDistance r.snapshot r.resolved.sourceNode
    r.resolved.destinationNode request = r.distance := rfl
  unfold emptyOutcome
  simp only [hlog, hdistance]
  cases hfailure : (r.found sha).failure.filter (· ≠ .noStructuralPath) with
  | some failure => simp only
  | none =>
    have hundecided : ∀ code ∈ (r.found sha).failure, code = .noStructuralPath := fun code hcode =>
      of_not_not fun hne => Option.filter_eq_none_iff.mp hfailure code hcode (decide_eq_true hne)
    by_cases hwithin : ∀ d ∈ r.distance, ∀ hops ∈ request.constraints.maxHops, d ≤ hops.value
    · rw [hcause hundecided hwithin]
    · -- the bound on the hops explains the loss
      push Not at hwithin
      obtain ⟨d, hd, hops, hhops, hlt⟩ := hwithin
      rw [Option.mem_def] at hd hhops
      simp only [hd, hhops, decide_eq_true hlt, if_true]

/-- **What is compared and published** differs in the rejections alone, unless the log decides about
a loss. -/
theorem computed_withExplanations (habridges : log.Abridges r.built.view.rejections)
    {candidates : List Candidate} (hcause : candidates = [] →
      (∀ code ∈ (r.found sha).failure, code = .noStructuralPath) →
      (∀ d ∈ r.distance, ∀ hops ∈ request.constraints.maxHops, d ≤ hops.value) →
        primaryFailure log r.distance.isSome =
          primaryFailure r.built.view.rejections r.distance.isSome) :
    SameVerdict ((r.withExplanations hview).computed sha candidates).result
      (r.computed sha candidates).result := by
  have hnil (built : BuiltView) : finishResult request r.snapshot built (r.found sha) r.resolved [] =
    { emptyOutcome r.snapshot request built.view (r.found sha)
        { r.resolved with truncated := (r.found sha).truncated } with
      rejections := built.view.rejections.render
      candidates := [] } := rfl
  refine ⟨?_, habridges.render⟩
  unfold computed
  rw [r.found_withExplanations hview]
  change { finishResult request r.snapshot (r.built.withExplanations entries log) (r.found sha)
      r.resolved candidates with rejections := r.built.view.rejections.render } =
    finishResult request r.snapshot r.built (r.found sha) r.resolved candidates
  cases candidates with
  | nil =>
    rw [hnil, hnil, @emptyOutcome_withExplanations sha capture request entries log r (hcause rfl)]
  | cons candidate candidates => rfl

include hview in
/-- The bounds agree on the first cause exactly when the smaller one records it. -/
theorem primaryFailure_eq_iff_recordsFirstCause
    (h : entries ≤ capture.limits.maxExplanationEntries)
    (habridges : log.Abridges r.built.view.rejections) :
    primaryFailure log r.distance.isSome =
        primaryFailure r.built.view.rejections r.distance.isSome ↔
      RecordsFirstCause r.snapshot request capture.limits entries r.causes := by
  have hlarge := buildPlanningView_holds (buildView_eq_ok r.builds)
  have hsmall := holds_withExplanations h hview
  have hcontains : r.built.view.rejections.contains = fun cause => decide
      (cause ∈ countedCodes r.snapshot request capture.limits ∨
        cause ∈ (listedCodes r.snapshot request capture.limits).take
          (max 1 capture.limits.maxExplanationEntries.toNat)) := by
    funext cause
    rw [Bool.eq_iff_iff, hlarge.contains_iff, decide_eq_true_eq]
  rw [primaryFailure_eq_iff habridges, hcontains]
  unfold RecordsFirstCause causes
  simp only [hsmall.contains_iff]

/-- What is left of the call under the smaller bound. -/
theorem computePlan_withExplanations : computePlan sha (capture.withExplanations entries) request =
    (validateCandidates capture.authority request.policy.authorityValidation
      (r.built.withExplanations entries log).view (r.found sha).truncated r.resolved
      (r.ranked sha)).map ((r.withExplanations hview).computed sha) := by
  rw [(r.withExplanations hview).computePlan_eq, r.found_withExplanations hview,
    r.ranked_withExplanations hview]
  rfl

end Bounded

variable (sha) in
/-- A call that is classified from the log names the first cause of the log. -/
theorem IsClassifiedByLog.primaryFailure_eq {r : Reaches capture request}
    (h : r.IsClassifiedByLog sha) : (r.computed sha []).result.primaryFailure =
      some (primaryFailure r.built.view.rejections r.distance.isSome) := by
  have hdistance : structuralHopDistance r.snapshot r.resolved.sourceNode
    r.resolved.destinationNode request = r.distance := rfl
  have hfailure : (r.found sha).failure.filter (· ≠ .noStructuralPath) = none :=
    Option.filter_eq_none_iff.mpr fun code hcode hne =>
      of_decide_eq_true hne (h.undecided code hcode)
  change (emptyOutcome r.snapshot request r.built.view (r.found sha)
    { r.resolved with truncated := (r.found sha).truncated }).primaryFailure = _
  unfold emptyOutcome
  simp only [hdistance, hfailure]
  cases hd : r.distance with
  | none => rfl
  | some d =>
    cases hhops : request.constraints.maxHops with
    | none => rfl
    | some hops =>
      have hbound : decide (d > hops.value) = false :=
        decide_eq_false (not_lt.mpr (h.withinHops d hd hops hhops))
      simp only [hbound, Bool.false_eq_true, if_false]

/-- A call that is classified from the log is so under the smaller bound. -/
theorem IsClassifiedByLog.withExplanations {r : Reaches capture request}
    (h : r.IsClassifiedByLog sha) (hview : buildPlanningView r.snapshot request
      (capture.limits.withExplanations entries) r.resolved.sourceNode r.resolved.destinationNode =
        .ok (r.built.withExplanations entries log))
    (hlost : validateCandidates capture.authority request.policy.authorityValidation
      (r.built.withExplanations entries log).view (r.found sha).truncated r.resolved
      (r.ranked sha) = .ok []) :
    (r.withExplanations hview).IsClassifiedByLog sha := by
  refine ⟨?_, ?_, h.withinHops⟩
  · rw [r.found_withExplanations hview, r.ranked_withExplanations hview]
    exact hlost
  · rw [r.found_withExplanations hview]
    exact h.undecided

end Reaches

/-! ## Results -/

namespace RuntimeState

variable {sha : List UInt8 → Sha256Digest} {capture : PlanCapture} {request : PlanningRequest}
  {compared published : RuntimeState} {entries : UInt32}

theorem nextGeneration_withExplanations {state : RuntimeState} {id : PlanningRequestId}
    {digest : Sha256Digest} :
    ((state.withExplanations entries).nextGeneration id digest).1 =
      (state.nextGeneration id digest).1 := by
  unfold nextGeneration
  rw [show (state.withExplanations entries).requestGenerations = state.requestGenerations from rfl]
  cases state.requestGenerations.lookup id with
  | none => rfl
  | some known =>
    dsimp only
    split_ifs <;> rfl

/-- What a publication returns. -/
theorem fst_publishPlan {state : RuntimeState} {computed : ComputedPlan} :
    (publishPlan sha state capture request computed).1 =
      let provisional := makePathPlan sha request computed.result capture.publishSequence
      let generation := (state.nextGeneration request.id provisional.semanticDigest).1
      { computed.result with
        semanticDigest := provisional.semanticDigest
        planId := provisional.id
        planningGeneration := generation
        candidates := computed.result.candidates.map fun candidate =>
          { candidate with
            provenance := { candidate.provenance with planningGeneration := generation } } } := rfl

/-- The comparison and the publication keep the verdict. -/
theorem sameVerdict_publishPlan {small large : ComputedPlan}
    (hsnapshot : small.snapshot = large.snapshot) (h : SameVerdict small.result large.result) :
    SameVerdict
      (publishPlan sha (published.withExplanations entries) (capture.withExplanations entries)
        request ((compared.withExplanations entries).comparePlan (capture.withExplanations entries)
          small)).1
      (publishPlan sha published capture request (compared.comparePlan capture large)).1 := by
  obtain ⟨snapshot, result, stats⟩ := small
  obtain ⟨snapshot', result', stats'⟩ := large
  obtain ⟨hothers, hrejections⟩ := h
  obtain rfl : snapshot = snapshot' := hsnapshot
  dsimp only at hothers hrejections
  rw [← hothers]
  have hwatermark : (compared.withExplanations entries).watermarkChanged
      (capture.withExplanations entries) ⟨snapshot, result, stats⟩ =
    compared.watermarkChanged capture
      ⟨snapshot, { result with rejections := result'.rejections }, stats'⟩ := rfl
  unfold comparePlan
  rw [hwatermark]
  refine ⟨?_, ?_⟩
  · rw [fst_publishPlan, fst_publishPlan]
    dsimp only
    rw [nextGeneration_withExplanations]
    split_ifs
    · rfl
    · rfl
  · split_ifs
    · exact hrejections
    · exact hrejections

/-- **The verdict of a call** does not depend on the bound on explanations exactly when the smaller
bound still records the first cause of a failure that is classified from the log. -/
theorem planResult_sameVerdict_iff (h : entries ≤ capture.limits.maxExplanationEntries) :
    SameVerdict
        (planResult sha (capture.withExplanations entries) request
          (compared.withExplanations entries) (published.withExplanations entries))
        (planResult sha capture request compared published) ↔
      ∀ r : Reaches capture request, r.IsClassifiedByLog sha →
        RecordsFirstCause r.snapshot request capture.limits entries r.causes := by
  constructor
  · intro hverdict r hclassified
    obtain ⟨log, hview, habridges⟩ := r.exists_log h
    rw [← r.primaryFailure_eq_iff_recordsFirstCause hview h habridges]
    have hvalidated := @validateCandidates_withExplanations r.built entries
      log capture.authority request.policy.authorityValidation (r.found sha).truncated r.resolved
      (r.ranked sha) habridges
    rw [hclassified.lost] at hvalidated
    have hsmall : (r.withExplanations hview).IsClassifiedByLog sha :=
      hclassified.withExplanations hview hvalidated
    have hlargePlan := @Reaches.computePlan_eq sha capture request r
    rw [hclassified.lost] at hlargePlan
    have hsmallPlan := @Reaches.computePlan_withExplanations sha capture request entries log r hview
    rw [hvalidated] at hsmallPlan
    have hfailure := congrArg PlanningResult.primaryFailure hverdict.others
    dsimp only at hfailure
    rw [planResult_primaryFailure hlargePlan, planResult_primaryFailure hsmallPlan] at hfailure
    change (Reaches.computed sha _ []).result.primaryFailure =
      (Reaches.computed sha _ []).result.primaryFailure at hfailure
    rw [hclassified.primaryFailure_eq, hsmall.primaryFailure_eq] at hfailure
    exact Option.some.inj hfailure
  · intro hrecords
    rcases Reaches.computePlan_cases sha h with ⟨result, hlarge, hsmall⟩ | ⟨⟨r⟩⟩
    · rw [planResult_of_error hlarge, planResult_of_error hsmall]
      exact .refl result
    obtain ⟨log, hview, habridges⟩ := r.exists_log h
    have hlargePlan := @Reaches.computePlan_eq sha capture request r
    have hsmallPlan := @Reaches.computePlan_withExplanations sha capture request entries log r hview
    have hvalidated := @validateCandidates_withExplanations r.built entries
      log capture.authority request.policy.authorityValidation (r.found sha).truncated r.resolved
      (r.ranked sha) habridges
    cases hlarge : validateCandidates capture.authority request.policy.authorityValidation
        r.built.view (r.found sha).truncated r.resolved (r.ranked sha) with
    | error final =>
      rw [hlarge] at hvalidated hlargePlan
      obtain ⟨final', hfinal, hsame⟩ := hvalidated
      rw [hfinal] at hsmallPlan
      rw [planResult_of_error hlargePlan, planResult_of_error hsmallPlan]
      exact hsame
    | ok candidates =>
      rw [hlarge] at hvalidated hlargePlan
      rw [hvalidated] at hsmallPlan
      unfold planResult
      rw [hlargePlan, hsmallPlan]
      refine sameVerdict_publishPlan rfl (r.computed_withExplanations hview habridges ?_)
      rintro rfl hundecided hwithin
      exact (r.primaryFailure_eq_iff_recordsFirstCause hview h habridges).mpr
        (hrecords r ⟨hlarge, hundecided, hwithin⟩)

end RuntimeState

/-! ## A cause that is crowded out -/

theorem isSome_records_nodeApart :
    (FabricSnapshotBuilder.ofLinks [1, 2, 3] [(1, 2)]).records.toOption.isSome = true := by
  decide +kernel

/-- Two nodes joined by a link, and a node apart. -/
def nodeApart : FabricSnapshot :=
  (FabricSnapshotBuilder.ofLinks [1, 2, 3] [(1, 2)]).snapshotWith isSome_records_nodeApart
    ⟨Vector.replicate 32 9⟩

/-- A request that forbids the link and some nodes. -/
def withoutLink (nodes : List NodeId) : PlanningRequest :=
  { PlanningRequest.between 1 2 with
    constraints :=
      { id := .tagged 0 1
        forbiddenLinks := [.tagged 0 1]
        forbiddenNodes := nodes } }

/-- What a call captures from a new runtime over that fabric. -/
def nodeApartCapture : PlanCapture := captureUnder {} nodeApart .unavailable

/-- What the call returns under a bound on explanations. -/
def explainedResult (entries : UInt32) (nodes : List NodeId) : PlanningResult :=
  RuntimeState.planResult constantHash (nodeApartCapture.withExplanations entries)
    (withoutLink nodes) ((runtimeUnder {} nodeApart).withExplanations entries)
    ((runtimeUnder {} nodeApart).withExplanations entries)

/-- With room for one explanation the forbidden node apart hides the forbidden link. -/
theorem not_sameVerdict_explainedResult :
    validateLimits (({} : ResourceLimits).withExplanations 1) = none ∧
      (explainedResult 1 [.tagged 0 3]).primaryFailure = some .forbiddenNode ∧
      (explainedResult 256 [.tagged 0 3]).primaryFailure = some .forbiddenLink ∧
      ¬ SameVerdict (explainedResult 1 [.tagged 0 3]) (explainedResult 256 [.tagged 0 3]) := by
  have hsmall : (explainedResult 1 [.tagged 0 3]).primaryFailure = some .forbiddenNode := by
    decide +kernel
  have hlarge : (explainedResult 256 [.tagged 0 3]).primaryFailure = some .forbiddenLink := by
    decide +kernel
  refine ⟨by decide +kernel, hsmall, hlarge, fun h => ?_⟩
  have hfailure := congrArg PlanningResult.primaryFailure h.others
  rw [hlarge] at hfailure
  change (explainedResult 1 [.tagged 0 3]).primaryFailure = _ at hfailure
  rw [hsmall] at hfailure
  cases hfailure

/-- Where only the link is forbidden, room for one explanation is enough. -/
theorem planResult_sameVerdict_iff_explainedResult :
    SameVerdict (explainedResult 1 []) (explainedResult 256 []) := by
  refine (RuntimeState.planResult_sameVerdict_iff (show (1 : UInt32) ≤
    nodeApartCapture.limits.maxExplanationEntries by decide +kernel)).mpr fun r _ => ?_
  have hsnapshot : r.snapshot = nodeApart := (Option.some.inj r.snapshot_eq).symm
  rw [hsnapshot]
  exact recordsFirstCause_of_length_le (by decide +kernel)

end PathPlanner
