import PathPlanner.Planner.Verdicts
import PathPlanner.Runtime.MemberLimit
import PathPlanner.Runtime.Provisional

/-!
# The Path Authority as a filter

The candidates that `Plan` returns are the unfiltered ranking without the ones that its mode drops
under the verdicts of the Path Authority. A call that loses all its candidates says so when one was
rejected; when a required authority leaves every question open, the call falls through to the
explanation of a missing path.

## Main definitions

* `FollowsVerdicts`: the candidates are the ones that the mode keeps, in the order of the ranking
* `AuthorityFiltered`: moreover, losing all candidates is not mistaken for a missing path
* `LeavesAllOpen`: a required authority that answers no question

## Main results

* `RuntimeState.planResult_followsVerdicts`: the candidates are always filtered as the mode asks
* `RuntimeState.planResult_authorityFiltered_iff`: **when lost candidates are reported as lost**
-/

namespace PathPlanner

/-! ## The unfiltered ranking -/

/-- The stages of a call up to the ranking. -/
def computeRanking (sha : List UInt8 → Sha256Digest) (capture : PlanCapture)
    (request : PlanningRequest) : Except PlanningResult (List Candidate) := do
  let snapshot ← checkRequest capture request
  let source ← resolveEndpoint snapshot request.source true
  let destination ← resolveEndpoint snapshot request.destination false
  let result := resolvedResult capture request snapshot source destination
  let built ← buildView capture request snapshot result
  return rankedCandidates request snapshot built result.evidence
    (findCandidates sha capture.limits request built)

/-- The ranking of a call before the Path Authority is consulted; a call that is refused earlier has
none. -/
def unfilteredRanking (sha : List UInt8 → Sha256Digest) (capture : PlanCapture)
    (request : PlanningRequest) : List Candidate :=
  (computeRanking sha capture request).toOption.getD []

/-- The ranking of a call with the verdicts on it. -/
def judgedRanking (sha : List UInt8 → Sha256Digest) (capture : PlanCapture)
    (request : PlanningRequest) : List (Candidate × AuthorityValidation) :=
  judge capture.authority request.policy.authorityValidation (unfilteredRanking sha capture request)

/-- The candidates of a result are those of the ranking that the mode keeps under their verdicts, in
the order of the ranking and numbered anew. -/
structure FollowsVerdicts (mode : AuthorityValidationMode)
    (judged : List (Candidate × AuthorityValidation)) (result : PlanningResult) : Prop where
  required : mode = .required → ∀ c ∈ result.candidates, c.authority = .validated
  bestEffort : mode = .bestEffort → (∀ c ∈ result.candidates, c.authority ≠ .rejected) ∧
    ∀ entry ∈ judged, entry.2 = .validated ∨ entry.2 = .unavailable →
      ∃ c ∈ result.candidates, c.subject = entry.1.subject ∧ c.authority = entry.2
  none : mode = .none → ∀ c ∈ result.candidates, c.authority = .notRequested
  subsequence : (result.candidates.map Candidate.subject).Sublist (judged.map (·.1.subject))
  ranks : result.candidates.map (·.rank.value) = List.range' 1 result.candidates.length

/-- Moreover a result that loses all candidates is neither a plan nor a missing path. -/
structure AuthorityFiltered (mode : AuthorityValidationMode)
    (judged : List (Candidate × AuthorityValidation)) (result : PlanningResult) : Prop
    extends FollowsVerdicts mode judged result where
  lost : judged ≠ [] → result.candidates = [] → result.status ≠ .planned ∧ result.status ≠ .noPath

/-- A required authority answers no question about the candidates that were found; the inputs did
not move, and no exclusion that counts as a limit or a constraint explains the loss. -/
structure LeavesAllOpen (sha : List UInt8 → Sha256Digest) (capture : PlanCapture)
    (request : PlanningRequest) (compared : RuntimeState) : Prop where
  required : request.policy.authorityValidation = .required
  configured : capture.authority ≠ none
  found : judgedRanking sha capture request ≠ []
  unanswered : ∀ entry ∈ judgedRanking sha capture request,
    entry.2 = .unavailable ∨ entry.2 = .notRequested
  unmoved : ∀ snapshot ∈ capture.snapshot, ¬ compared.MovedFrom capture snapshot
  unexplained : ∀ snapshot ∈ capture.snapshot, ∀ built ∈ viewOf snapshot capture.limits request,
    exclusionCauses.find? built.view.rejections.contains ∉
      [some .costOverflow, some .failureDomainMemberLimitExceeded]

section Ranking

variable {sha : List UInt8 → Sha256Digest} {capture : PlanCapture} {request : PlanningRequest}

theorem Reaches.computeRanking_eq (r : Reaches capture request) :
    computeRanking sha capture request = .ok (r.ranked sha) := by
  unfold computeRanking
  rw [r.checked]
  change (resolveEndpoint r.snapshot request.source true >>= _) = _
  rw [r.resolves_source]
  change (resolveEndpoint r.snapshot request.destination false >>= _) = _
  rw [r.resolves_destination]
  change (buildView capture request r.snapshot _ >>= _) = _
  rw [r.builds]
  rfl

theorem Reaches.unfilteredRanking_eq (r : Reaches capture request) :
    unfilteredRanking sha capture request = r.ranked sha := by
  rw [unfilteredRanking, r.computeRanking_eq]
  rfl

theorem Reaches.judgedRanking_eq (r : Reaches capture request) :
    judgedRanking sha capture request =
      judge capture.authority request.policy.authorityValidation (r.ranked sha) := by
  rw [judgedRanking, r.unfilteredRanking_eq]

/-- The verdicts are on the ranking, and there are none exactly when it is empty. -/
theorem Reaches.judgedRanking_eq_nil_iff (r : Reaches capture request) :
    judgedRanking sha capture request = [] ↔ r.ranked sha = [] := by
  rw [r.judgedRanking_eq, judge_eq_nil_iff]

/-- **A call has a ranking** when it reaches the Path Authority, and is refused otherwise. -/
theorem computeRanking_cases :
    (∃ r : Reaches capture request, unfilteredRanking sha capture request = r.ranked sha) ∨
      (unfilteredRanking sha capture request = [] ∧
        ∃ result, computePlan sha capture request = .error result) := by
  cases hranking : computeRanking sha capture request with
  | ok ranking =>
    obtain ⟨snapshot, hcheck, h⟩ := exists_ok_of_bind hranking
    obtain ⟨source, hsource, h⟩ := exists_ok_of_bind h
    obtain ⟨destination, hdestination, h⟩ := exists_ok_of_bind h
    obtain ⟨built, hbuilt, -⟩ := exists_ok_of_bind h
    have r : Reaches capture request :=
      ⟨snapshot, source, destination, built, hcheck, hsource, hdestination, hbuilt⟩
    exact Or.inl ⟨r, r.unfilteredRanking_eq⟩
  | error result =>
    refine Or.inr ⟨by rw [unfilteredRanking, hranking]; rfl, ?_⟩
    cases hcomputed : computePlan sha capture request with
    | error result => exact ⟨result, rfl⟩
    | ok computed =>
      obtain ⟨p, -⟩ := computePlan_eq_ok hcomputed
      rw [p.reaches.computeRanking_eq] at hranking
      cases hranking

/-- A call with something to judge reaches the Path Authority. -/
theorem exists_reaches_of_judgedRanking_ne_nil (h : judgedRanking sha capture request ≠ []) :
    Nonempty (Reaches capture request) := by
  rcases @computeRanking_cases sha capture request with ⟨r, -⟩ | ⟨hranking, -⟩
  · exact ⟨r⟩
  · refine absurd ?_ h
    rw [judgedRanking, hranking]
    rfl

/-- What the step of the Path Authority makes of the ranking of a call. -/
theorem Reaches.validateCandidates_spec (r : Reaches capture request) :
    match validateCandidates capture.authority request.policy.authorityValidation r.built.view
      (r.found sha).truncated r.resolved (r.ranked sha) with
    | .ok out => out.map Candidate.judged =
        ((judge capture.authority request.policy.authorityValidation (r.ranked sha)).filter
          (keeps request.policy.authorityValidation ·.2)).map fun entry => (entry.1.subject, entry.2)
    | .error final => (final.status = .unsupported ∨ final.status = .revalidationRequired) ∧
        (request.policy.authorityValidation = .bestEffort →
          (judge capture.authority request.policy.authorityValidation (r.ranked sha)).filter
            (keeps request.policy.authorityValidation ·.2) = []) :=
  PathPlanner.validateCandidates_spec (validateRequest_authorityMode r.valid) r.ranked_evidence
    r.ranked_authority

/-- Where nothing is asked, the verdicts say so. -/
theorem snd_of_mem_judge_none {authority : Option PathAuthority} {ranking : List Candidate}
    {entry : Candidate × AuthorityValidation} (h : entry ∈ judge authority .none ranking) :
    entry.2 = .notRequested := by
  obtain ⟨_, -, rfl⟩ := List.mem_map.mp h
  rfl

end Ranking

/-! ## The candidates of a result -/

section Follows

variable {authority : Option PathAuthority} {mode : AuthorityValidationMode}
  {ranking : List Candidate} {result : PlanningResult}

/-- A result without candidates follows the verdicts, when a best effort keeps nothing either. -/
theorem followsVerdicts_of_nil {judged : List (Candidate × AuthorityValidation)}
    (hnil : result.candidates = [])
    (hbest : mode = .bestEffort → judged.filter (keeps mode ·.2) = []) :
    FollowsVerdicts mode judged result where
  required _ c hc := absurd (hnil ▸ hc) List.not_mem_nil
  bestEffort hmode := by
    refine ⟨fun c hc => absurd (hnil ▸ hc) List.not_mem_nil, fun entry he hverdict => ?_⟩
    have hdropped := List.filter_eq_nil_iff.mp (hbest hmode) entry he
    rw [hmode] at hdropped
    rcases hverdict with h | h <;> exact absurd (by rw [h]; rfl) hdropped
  none _ c hc := absurd (hnil ▸ hc) List.not_mem_nil
  subsequence := by
    rw [hnil]
    exact List.nil_sublist _
  ranks := by
    rw [hnil]
    rfl

/-- **Candidates filtered by the verdicts** follow them. -/
theorem followsVerdicts_of_map
    (hmap : result.candidates.map Candidate.judged =
      ((judge authority mode ranking).filter (keeps mode ·.2)).map
        fun entry => (entry.1.subject, entry.2))
    (hranks : result.candidates.map (·.rank.value) = List.range' 1 result.candidates.length) :
    FollowsVerdicts mode (judge authority mode ranking) result := by
  -- every candidate stands for a kept entry, and every kept entry for a candidate
  have hkept : ∀ c ∈ result.candidates, ∃ entry ∈ judge authority mode ranking,
      keeps mode entry.2 = true ∧ c.authority = entry.2 := by
    intro c hc
    obtain ⟨entry, he, heq⟩ := List.mem_map.mp (hmap ▸ List.mem_map_of_mem hc)
    obtain ⟨hmem, hkeeps⟩ := List.mem_filter.mp he
    exact ⟨entry, hmem, hkeeps, (Prod.mk.inj heq).2.symm⟩
  have hstays : ∀ entry ∈ judge authority mode ranking, keeps mode entry.2 = true →
      ∃ c ∈ result.candidates, c.subject = entry.1.subject ∧ c.authority = entry.2 := by
    intro entry he hkeeps
    have hmem : (entry.1.subject, entry.2) ∈ result.candidates.map Candidate.judged :=
      hmap ▸ List.mem_map.mpr ⟨entry, List.mem_filter.mpr ⟨he, hkeeps⟩, rfl⟩
    obtain ⟨c, hc, heq⟩ := List.mem_map.mp hmem
    exact ⟨c, hc, Prod.mk.inj heq⟩
  constructor
  case required =>
    rintro rfl c hc
    obtain ⟨entry, -, hkeeps, heq⟩ := hkept c hc
    exact heq.trans (of_decide_eq_true hkeeps)
  case bestEffort =>
    rintro rfl
    refine ⟨fun c hc => ?_, fun entry he hverdict => hstays entry he ?_⟩
    · obtain ⟨entry, -, hkeeps, heq⟩ := hkept c hc
      exact heq ▸ of_decide_eq_true hkeeps
    · rcases hverdict with h | h <;> exact h ▸ rfl
  case none =>
    rintro rfl c hc
    obtain ⟨entry, he, -, heq⟩ := hkept c hc
    exact heq.trans (snd_of_mem_judge_none he)
  case subsequence =>
    have hsubjects := congrArg (List.map Prod.fst) hmap
    rw [List.map_map, List.map_map] at hsubjects
    change (result.candidates.map (Prod.fst ∘ Candidate.judged)).Sublist _
    rw [hsubjects]
    exact List.filter_sublist.map _
  case ranks => exact hranks

end Follows

/-- The exclusions stand for a missing path unless the first of them is a limit or a constraint. -/
theorem statusForFailure_primaryFailure_iff {rejections : RejectionLog} :
    statusForFailure (primaryFailure rejections true) = .noPath ↔
      exclusionCauses.find? rejections.contains ∉
        [some .costOverflow, some .failureDomainMemberLimitExceeded] := by
  have hcauses : primaryFailure rejections true =
      (exclusionCauses.find? rejections.contains).getD .noStructuralPath := rfl
  rw [hcauses]
  cases hfind : exclusionCauses.find? rejections.contains with
  | none => exact iff_of_true rfl (by simp)
  | some code =>
    have hcodes : ∀ code ∈ exclusionCauses, statusForFailure code = .noPath ↔
        some code ∉ [some DiagnosticCode.costOverflow, some .failureDomainMemberLimitExceeded] := by
      decide
    exact hcodes code (List.mem_of_find?_eq_some hfind)

theorem statusForFailure_ne_planned (code : DiagnosticCode) : statusForFailure code ≠ .planned := by
  cases code <;> decide

namespace RuntimeState

variable {sha : List UInt8 → Sha256Digest} {capture : PlanCapture} {request : PlanningRequest}
  {compared published : RuntimeState}

/-- A call that is refused is neither a plan nor a missing path, once it has a ranking. -/
theorem planResult_of_error {result : PlanningResult}
    (h : computePlan sha capture request = .error result) :
    planResult sha capture request compared published = result := by
  unfold planResult
  rw [h]

/-- The candidates of a result are those of the computation, up to the marks. -/
theorem planResult_map {computed : ComputedPlan}
    (h : computePlan sha capture request = .ok computed) {α : Type} {f : Candidate → α}
    (hf : IgnoresMarks f) :
    (planResult sha capture request compared published).candidates.map f =
      computed.result.candidates.map f := by
  unfold planResult
  rw [h]
  exact (map_publishPlan hf _).trans (map_comparePlan hf _)

/-- **The candidates of a result** are those that the mode keeps. -/
theorem planResult_followsVerdicts :
    FollowsVerdicts request.policy.authorityValidation (judgedRanking sha capture request)
      (planResult sha capture request compared published) := by
  unfold judgedRanking
  rcases @computeRanking_cases sha capture request with ⟨r, hranking⟩ | ⟨hranking, result, herror⟩
  · rw [hranking]
    have hspec := @Reaches.validateCandidates_spec sha capture request r
    have hplan := @Reaches.computePlan_eq sha capture request r
    cases hvalidated : validateCandidates capture.authority request.policy.authorityValidation
        r.built.view (r.found sha).truncated r.resolved (r.ranked sha) with
    | error result =>
      rw [hvalidated] at hspec hplan
      rw [planResult_of_error hplan]
      exact followsVerdicts_of_nil (computePlan_eq_error hplan).1.candidates hspec.2
    | ok candidates =>
      rw [hvalidated] at hspec hplan
      obtain ⟨p, hp⟩ := computePlan_eq_ok hplan
      have hsame : candidates = p.candidates := congrArg (·.result.candidates) hp
      have hranks : (planResult sha capture request compared published).candidates.map
          (·.rank.value) = candidates.map (·.rank.value) := planResult_map hplan fun _ _ _ => rfl
      have hlength := congrArg List.length hranks
      rw [List.length_map, List.length_map] at hlength
      refine followsVerdicts_of_map ((planResult_map hplan fun _ _ _ => rfl).trans hspec) ?_
      rw [hranks, hlength, hsame]
      exact p.isRanking.ranks
  · rw [planResult_of_error herror]
    refine followsVerdicts_of_nil (computePlan_eq_error herror).1.candidates fun _ => ?_
    rw [hranking]
    rfl

/-- The status of a call that loses its candidates while the inputs do not move. -/
theorem planResult_status_of_lost {r : Reaches capture request} (hranked : r.ranked sha ≠ [])
    (hplan : computePlan sha capture request = .ok (r.computed sha []))
    (hmoved : ¬ compared.MovedFrom capture r.snapshot) :
    (planResult sha capture request compared published).status =
      statusForFailure (primaryFailure r.built.view.rejections true) := by
  rw [(planResult_eq hplan).1, comparePlan_of_not_movedFrom (r.computed sha []) hmoved,
    r.emptyOutcome_status hranked]

/-- **When all questions are left open** all candidates are lost, and no path is reported. -/
theorem planResult_of_leavesAllOpen (hopen : LeavesAllOpen sha capture request compared) :
    (planResult sha capture request compared published).candidates = [] ∧
      (planResult sha capture request compared published).status = .noPath := by
  obtain ⟨r⟩ := exists_reaches_of_judgedRanking_ne_nil hopen.found
  have hplan := @Reaches.computePlan_eq sha capture request r
  have hranked : r.ranked sha ≠ [] := mt r.judgedRanking_eq_nil_iff.mpr hopen.found
  obtain ⟨ask, hask⟩ := Option.ne_none_iff_exists'.mp hopen.configured
  have hunanswered := hopen.unanswered
  rw [r.judgedRanking_eq, hask, hopen.required] at hunanswered
  rw [hask, hopen.required, validateCandidates_of_unanswered r.ranked_evidence hunanswered]
    at hplan
  constructor
  · have hmap := @planResult_map sha capture request compared published _ hplan _
      Candidate.subject fun _ _ _ => rfl
    exact List.map_eq_nil_iff.mp hmap
  · rw [planResult_status_of_lost hranked hplan (hopen.unmoved _ r.snapshot_eq)]
    exact statusForFailure_primaryFailure_iff.mpr (hopen.unexplained _ r.snapshot_eq _ r.viewOf_eq)

/-- **Lost candidates** are reported as lost exactly when it is not the case that all questions are
left open. -/
theorem planResult_lost_iff :
    (judgedRanking sha capture request ≠ [] →
      (planResult sha capture request compared published).candidates = [] →
        (planResult sha capture request compared published).status ≠ .planned ∧
          (planResult sha capture request compared published).status ≠ .noPath) ↔
      ¬ LeavesAllOpen sha capture request compared := by
  rcases @computeRanking_cases sha capture request with ⟨r, -⟩ | ⟨hranking, -⟩
  swap
  · -- a call that is refused early has nothing to lose
    have hnil : judgedRanking sha capture request = [] := by
      rw [judgedRanking, hranking]
      rfl
    exact iff_of_true (fun hne => absurd hnil hne) fun hopen => hopen.found hnil
  have hplan := @Reaches.computePlan_eq sha capture request r
  have hranked : judgedRanking sha capture request ≠ [] → r.ranked sha ≠ [] :=
    mt r.judgedRanking_eq_nil_iff.mpr
  constructor
  · intro hlost hopen
    obtain ⟨hcandidates, hstatus⟩ := planResult_of_leavesAllOpen hopen
    exact (hlost hopen.found hcandidates).2 hstatus
  · intro hopen hne hcandidates
    cases hvalidated : validateCandidates capture.authority request.policy.authorityValidation
        r.built.view (r.found sha).truncated r.resolved (r.ranked sha) with
    | error result =>
      have hspec := @Reaches.validateCandidates_spec sha capture request r
      rw [hvalidated] at hspec hplan
      rw [planResult_of_error hplan]
      rcases hspec.1 with h | h <;> exact ⟨h ▸ by decide, h ▸ by decide⟩
    | ok candidates =>
      rw [hvalidated] at hplan
      have hmap := @planResult_map sha capture request compared published _ hplan _
        Candidate.subject fun _ _ _ => rfl
      rw [hcandidates] at hmap
      obtain rfl : candidates = [] := List.map_eq_nil_iff.mp hmap.symm
      by_cases hmoved : compared.MovedFrom capture r.snapshot
      · rw [(planResult_eq hplan).1, (comparePlan_of_movedFrom (r.computed sha []) hmoved).1]
        exact ⟨by decide, by decide⟩
      rw [planResult_status_of_lost (hranked hne) hplan hmoved]
      refine ⟨statusForFailure_ne_planned _, fun hnoPath => hopen ?_⟩
      -- only a required authority that answers no question loses them all
      obtain ⟨hnone, hbest, ask, hask, hunanswered⟩ :=
        validateCandidates_nil hvalidated (hranked hne)
      have hrequired := ((validateRequest_authorityMode r.valid).resolve_left hnone).resolve_left hbest
      exact {
        required := hrequired
        configured := Option.ne_none_iff_exists'.mpr ⟨ask, hask⟩
        found := hne
        unanswered := by
          rw [r.judgedRanking_eq, hask, judge_some hnone r.ranked_evidence]
          intro entry he
          obtain ⟨indexed, hi, rfl⟩ := List.mem_map.mp he
          have hopen : ¬ _ ∈ [AuthorityValidation.validated, .rejected] :=
            fun hverdict => hunanswered ⟨indexed, hi, hverdict⟩
          cases hverdict : ask indexed.2 indexed.1.path r.resolved.evidence <;>
            simp [hverdict] at hopen ⊢
        unmoved := fun snapshot hs => Option.some.inj (r.snapshot_eq.symm.trans hs) ▸ hmoved
        unexplained := fun snapshot hs built hb => by
          obtain rfl := Option.some.inj (r.snapshot_eq.symm.trans hs)
          obtain rfl := Option.some.inj (r.viewOf_eq.symm.trans hb)
          exact statusForFailure_primaryFailure_iff.mp hnoPath }

/-- **The Path Authority filters the ranking**, and losing all candidates is told apart from finding
no path, exactly when it is not the case that a required authority leaves every question open. -/
theorem planResult_authorityFiltered_iff :
    AuthorityFiltered request.policy.authorityValidation (judgedRanking sha capture request)
        (planResult sha capture request compared published) ↔
      ¬ LeavesAllOpen sha capture request compared := by
  rw [← @planResult_lost_iff sha capture request compared published]
  exact ⟨fun h => h.lost, fun h => ⟨planResult_followsVerdicts, h⟩⟩

end RuntimeState

/-! ## A question that stays open -/

/-- A runtime over a snapshot with given limits and a Path Authority. -/
def runtimeUnder (limits : ResourceLimits) (snapshot : FabricSnapshot) : RuntimeState :=
  .new limits (some snapshot) true

/-- What a call to it captures when the authority always gives one answer. -/
def captureUnder (limits : ResourceLimits) (snapshot : FabricSnapshot)
    (answer : AuthorityValidation) : PlanCapture :=
  ((runtimeUnder limits snapshot).capturePlan fun _ _ _ => answer).1

/-- What the call returns. -/
def resultUnder (limits : ResourceLimits) (snapshot : FabricSnapshot) (answer : AuthorityValidation)
    (request : PlanningRequest) : PlanningResult :=
  RuntimeState.planResult constantHash (captureUnder limits snapshot answer) request
    (runtimeUnder limits snapshot) (runtimeUnder limits snapshot)

/-- A request that requires the verdict of the Path Authority. -/
def requiredVerdict (source destination : UInt8) : PlanningRequest :=
  { PlanningRequest.between source destination with policy := { authorityValidation := .required } }

/-- No path is reported for the path that a required authority could not judge. -/
theorem not_authorityFiltered_singleLink :
    ¬ AuthorityFiltered .required
      (judgedRanking constantHash (captureUnder {} singleLink .unavailable) (requiredVerdict 1 2))
      (resultUnder {} singleLink .unavailable (requiredVerdict 1 2)) := by
  intro h
  have hfound : judgedRanking constantHash (captureUnder {} singleLink .unavailable)
      (requiredVerdict 1 2) ≠ [] := by
    rw [← List.isEmpty_eq_false_iff]
    decide +kernel
  have hnone : (resultUnder {} singleLink .unavailable (requiredVerdict 1 2)).candidates = [] := by
    rw [← List.isEmpty_iff]
    decide +kernel
  exact (h.lost hfound hnone).2 (by decide +kernel)

end PathPlanner
