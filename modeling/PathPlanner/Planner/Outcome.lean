import PathPlanner.Planner.Compute

/-!
# Outcomes of a computation

A computation that is not refused has passed every stage; a refused one has no candidates. Both
carry the publication sequence that was captured, if they carry evidence at all.

## Main results

* `computePlan_eq_ok`: the stages of a computation that is published
* `computePlan_eq_error`: what a refusal leaves
-/

namespace PathPlanner

variable {sha : List UInt8 → Sha256Digest} {capture : PlanCapture} {request : PlanningRequest}

/-- A computation that succeeds has two parts that succeed. -/
theorem exists_ok_of_bind {ε α β : Type} {x : Except ε α} {f : α → Except ε β} {b : β}
    (h : (x >>= f) = .ok b) : ∃ a, x = .ok a ∧ f a = .ok b := by
  cases x with
  | error e => cases h
  | ok a => exact ⟨a, rfl, h⟩

/-- A computation that fails has a first part that fails, or a second one. -/
theorem error_or_of_bind {ε α β : Type} {x : Except ε α} {f : α → Except ε β} {e : ε}
    (h : (x >>= f) = .error e) : x = .error e ∨ ∃ a, x = .ok a ∧ f a = .error e := by
  cases x with
  | error e' =>
    have he : (Except.error e' : Except ε β) = .error e := h
    exact Or.inl (congrArg Except.error (Except.error.inj he))
  | ok a => exact Or.inr ⟨a, rfl, h⟩

/-! ## Success -/

/-- The stages that a published computation has passed. -/
structure Passes (sha : List UInt8 → Sha256Digest) (capture : PlanCapture)
    (request : PlanningRequest) where
  snapshot : FabricSnapshot
  source : ResolvedEndpoint
  destination : ResolvedEndpoint
  built : BuiltView
  candidates : List Candidate
  checked : checkRequest capture request = .ok snapshot
  resolves_source : resolveEndpoint snapshot request.source true = .ok source
  resolves_destination : resolveEndpoint snapshot request.destination false = .ok destination
  builds : buildView capture request snapshot
    (resolvedResult capture request snapshot source destination) = .ok built
  validates : validateCandidates capture.authority request.policy.authorityValidation built.view
    (findCandidates sha capture.limits request built).truncated
    (resolvedResult capture request snapshot source destination)
    (rankedCandidates request snapshot built
      (resolvedResult capture request snapshot source destination).evidence
      (findCandidates sha capture.limits request built)) = .ok candidates

namespace Passes

variable (p : Passes sha capture request)

/-- The enumeration of a computation. -/
def found : Enumerated := findCandidates sha capture.limits request p.built

/-- The result of a computation. -/
def result : PlanningResult :=
  finishResult request p.snapshot p.built p.found
    (resolvedResult capture request p.snapshot p.source p.destination) p.candidates

end Passes

/-- **A published computation** has passed all stages. -/
theorem computePlan_eq_ok {computed : ComputedPlan}
    (h : computePlan sha capture request = .ok computed) :
    ∃ p : Passes sha capture request, computed = ⟨p.snapshot, p.result, p.found.stats⟩ := by
  obtain ⟨snapshot, hcheck, h⟩ := exists_ok_of_bind h
  obtain ⟨source, hsource, h⟩ := exists_ok_of_bind h
  obtain ⟨destination, hdestination, h⟩ := exists_ok_of_bind h
  obtain ⟨built, hbuilt, h⟩ := exists_ok_of_bind h
  obtain ⟨candidates, hcandidates, h⟩ := exists_ok_of_bind h
  exact ⟨⟨snapshot, source, destination, built, candidates, hcheck, hsource, hdestination, hbuilt,
    hcandidates⟩, (Except.ok.inj h).symm⟩

/-- A computation that passes all stages is published. -/
theorem Passes.computePlan_eq (p : Passes sha capture request) :
    computePlan sha capture request = .ok ⟨p.snapshot, p.result, p.found.stats⟩ := by
  unfold computePlan
  rw [p.checked]
  change (resolveEndpoint p.snapshot request.source true >>= _) = _
  rw [p.resolves_source]
  change (resolveEndpoint p.snapshot request.destination false >>= _) = _
  rw [p.resolves_destination]
  change (buildView capture request p.snapshot _ >>= _) = _
  rw [p.builds]
  change (validateCandidates capture.authority _ _ _ _ _ >>= _) = _
  rw [p.validates]
  rfl

/-! ## Refusal -/

/-- A refused result has no candidates, names no plan, and has no evidence but what was captured. -/
structure IsRefusal (capture : PlanCapture) (result : PlanningResult) : Prop where
  candidates : result.candidates = []
  planId : result.planId = default
  semanticDigest : result.semanticDigest = default
  sequence : result.evidence.publishSequence = default ∨
    result.evidence.publishSequence = capture.publishSequence

theorem isRefusal_empty : IsRefusal capture {} := ⟨rfl, rfl, rfl, Or.inl rfl⟩

/-- Refusing a result leaves no candidates, and another status than that of a missing path. -/
theorem refuse_spec {result : PlanningResult} (h : IsRefusal capture result) {status : PlanStatus}
    (hs : status ≠ .noPath) (code : DiagnosticCode) (detail : String) :
    IsRefusal capture (result.refuse status code detail) ∧
      (result.refuse status code detail).status ≠ .noPath :=
  ⟨⟨h.candidates, h.planId, h.semanticDigest, h.sequence⟩, hs⟩

theorem checkRequest_eq_error {result : PlanningResult}
    (h : checkRequest capture request = .error result) :
    IsRefusal capture result ∧ result.status ≠ .noPath := by
  unfold checkRequest at h
  split at h
  · next problem _ =>
    exact Except.error.inj h ▸
      refuse_spec isRefusal_empty (statusForValidationCode_ne problem.code).2.1 ..
  · split_ifs at h
    · exact Except.error.inj h ▸ refuse_spec isRefusal_empty (by decide) ..
    · exact Except.error.inj h ▸ refuse_spec isRefusal_empty (by decide) ..
    · split at h
      · exact Except.error.inj h ▸ refuse_spec isRefusal_empty (by decide) ..
      · next snapshot _ =>
        unfold checkExpectations at h
        split_ifs at h
        · exact Except.error.inj h ▸ refuse_spec isRefusal_empty (by decide) ..
        · exact Except.error.inj h ▸ refuse_spec isRefusal_empty (by decide) ..
        · exact Except.error.inj h ▸ refuse_spec isRefusal_empty (by decide) ..
        · cases h

theorem resolveEndpoint_eq_error {snapshot : FabricSnapshot} {ref : EndpointRef}
    {isSource : Bool} {result : PlanningResult}
    (h : resolveEndpoint snapshot ref isSource = .error result) :
    IsRefusal capture result ∧ result.status ≠ .noPath := by
  have hunknown : (if isSource = true then PlanStatus.sourceUnknown else .destinationUnknown) ≠
      .noPath := by cases isSource <;> decide
  have hstale : (if isSource = true then PlanStatus.sourceStale else .destinationStale) ≠
      .noPath := by cases isSource <;> decide
  unfold resolveEndpoint at h
  -- the texts depend on the side, the branches do not
  generalize (if isSource = true then "source" else "destination") = name at h
  generalize (if isSource = true then PlanStatus.sourceUnknown else .destinationUnknown) = unknown
    at h hunknown
  generalize (if isSource = true then PlanStatus.sourceStale else .destinationStale) = stale
    at h hstale
  dsimp only at h
  split at h
  · exact Except.error.inj h ▸ refuse_spec isRefusal_empty hunknown ..
  · split at h
    · exact Except.error.inj h ▸ refuse_spec isRefusal_empty (by decide) ..
    split at h
    · exact Except.error.inj h ▸ refuse_spec isRefusal_empty hstale ..
    · split at h
      · exact Except.error.inj h ▸ refuse_spec isRefusal_empty hunknown ..
      · cases h

theorem isRefusal_resolvedResult {snapshot : FabricSnapshot}
    {source destination : ResolvedEndpoint} :
    IsRefusal capture (resolvedResult capture request snapshot source destination) :=
  ⟨rfl, rfl, rfl, Or.inr rfl⟩

theorem validateCandidates_eq_error {authority : Option PathAuthority}
    {mode : AuthorityValidationMode} {view : PlanningView} {truncated : Bool}
    {result final : PlanningResult} {candidates : List Candidate} (hr : IsRefusal capture result)
    (h : validateCandidates authority mode view truncated result candidates = .error final) :
    IsRefusal capture final ∧ final.status ≠ .noPath := by
  unfold validateCandidates at h
  split at h
  · cases h
  · cases authority with
    | none =>
      dsimp only at h
      split_ifs at h
      exact Except.error.inj h ▸ refuse_spec hr (by decide) ..
    | some authority =>
      dsimp only at h
      split_ifs at h
      exact Except.error.inj h ▸ ⟨⟨hr.candidates, hr.planId, hr.semanticDigest, hr.sequence⟩, nofun⟩

/-- **A refusal** leaves no candidates and no evidence but what was captured, and its status is not
that of a missing path. -/
theorem computePlan_eq_error {result : PlanningResult}
    (h : computePlan sha capture request = .error result) :
    IsRefusal capture result ∧ result.status ≠ .noPath := by
  rcases error_or_of_bind h with h | ⟨snapshot, _, h⟩
  · exact checkRequest_eq_error h
  rcases error_or_of_bind h with h | ⟨source, _, h⟩
  · exact resolveEndpoint_eq_error h
  rcases error_or_of_bind h with h | ⟨destination, _, h⟩
  · exact resolveEndpoint_eq_error h
  rcases error_or_of_bind h with h | ⟨built, _, h⟩
  · unfold buildView at h
    split at h
    · exact Except.error.inj h ▸ refuse_spec ⟨rfl, rfl, rfl, Or.inr rfl⟩ (by decide) ..
    · cases h
  rcases error_or_of_bind h with h | ⟨candidates, _, h⟩
  · exact validateCandidates_eq_error isRefusal_resolvedResult h
  · cases h

/-! ## What a computation keeps -/

/-- A request that passes the checks is valid, and is planned over the captured snapshot. -/
theorem checkRequest_eq_ok {snapshot : FabricSnapshot}
    (h : checkRequest capture request = .ok snapshot) :
    capture.snapshot = some snapshot ∧ validateRequest request capture.limits = none := by
  unfold checkRequest at h
  split at h
  · cases h
  · next hvalid =>
    split_ifs at h
    split at h
    · cases h
    · next captured hs =>
      cases hexpect : checkExpectations request captured with
      | error result =>
        rw [hexpect] at h
        cases h
      | ok _ =>
        rw [hexpect] at h
        rw [hs, ← Except.ok.inj h]
        exact ⟨rfl, hvalid⟩

/-- The endpoints and the nodes of a result. -/
def PlanningResult.ends (result : PlanningResult) : EndpointId × EndpointId × NodeId × NodeId :=
  (result.sourceEndpoint, result.destinationEndpoint, result.sourceNode, result.destinationNode)

namespace Passes

variable (p : Passes sha capture request)

include p

/-- The evidence of a computation is that of the captured snapshot at the captured sequence. -/
theorem evidence_eq : p.result.evidence =
    { p.snapshot.evidence with publishSequence := capture.publishSequence } := by
  unfold result finishResult
  dsimp only
  split_ifs
  · rfl
  · unfold plannedOutcome
    split_ifs <;> rfl

/-- The ends of a computation are the resolved ones. -/
theorem ends_eq : p.result.ends = (p.source.record.id, p.destination.record.id, p.source.node.id,
    p.destination.node.id) := by
  unfold result finishResult
  dsimp only
  split_ifs
  · rfl
  · unfold plannedOutcome
    split_ifs <;> rfl

/-- The status of a computation with candidates. -/
theorem status_eq (hne : p.candidates ≠ []) : p.result.status =
    if p.found.truncated then .truncatedByLimit
    else if p.built.view.provisional then .revalidationRequired else .planned := by
  unfold result finishResult plannedOutcome
  dsimp only
  rw [List.isEmpty_eq_false_iff.mpr hne, if_neg Bool.false_ne_true]
  split_ifs <;> rfl

/-- The snapshot of a computation is the captured one. -/
theorem snapshot_eq : capture.snapshot = some p.snapshot := (checkRequest_eq_ok p.checked).1

/-- The request of a computation is valid. -/
theorem valid : validateRequest request capture.limits = none := (checkRequest_eq_ok p.checked).2

end Passes

end PathPlanner
