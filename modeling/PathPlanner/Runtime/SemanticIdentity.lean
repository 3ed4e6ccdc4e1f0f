import PathPlanner.Runtime.Produced

/-!
# Semantic identity

A plan is named by the digest of its semantic encoding. The encoding leaves out the sequence under
which a plan is published and the generation that it gets, but it contains the evidence of the plan,
and the evidence carries the publication sequence that was captured. So two calls that return the
same answer name it alike exactly when they captured the same sequence.

## Main definitions

* `PathPlan.SameContent`: plans that differ in bookkeeping alone
* `PlanningResult.SameAnswer`, `PlanningResult.SameIdentity`: two results compared
* `RuntimeState.semanticEncoding`: what a call names its result by
* `RuntimeState.SameSequence`: the calls captured the same publication sequence

## Main results

* `PathPlan.SameContent.semanticWord_eq_iff`: what the semantic encoding depends on
* `RuntimeState.planResult_sameIdentity_iff`: **when the same answer has the same name**
* `not_planResult_sameIdentity`: an invalidation between two calls changes the name
-/

namespace PathPlanner

/-! ## Plans that differ in bookkeeping -/

/-- What a candidate answers: its identity, its path, its cost and its rank. -/
def Candidate.answer (c : Candidate) : CandidatePathId × CandidatePath × PathCost × CandidateRank :=
  (c.id, c.path, c.cost, c.rank)

/-- The word of an answer. -/
def answerWord : CandidatePathId × CandidatePath × PathCost × CandidateRank → List UInt8
  | (id, path, cost, rank) => Candidate.semanticWord { id, path, cost, rank }

/-- Candidates of the same answers are written alike. -/
theorem semanticWords_eq_of_answers_eq {cs ds : List Candidate}
    (h : cs.map Candidate.answer = ds.map Candidate.answer) :
    cs.map Candidate.semanticWord = ds.map Candidate.semanticWord := by
  have hword (cs : List Candidate) :
      cs.map Candidate.semanticWord = (cs.map Candidate.answer).map answerWord := by
    rw [List.map_map]
    rfl
  rw [hword, hword, h]

/-- The plans differ in nothing but their names, the publication sequences in them and their
generations. -/
structure PathPlan.SameContent (plan plan' : PathPlan) : Prop where
  request : plan.request = plan'.request
  status : plan.status = plan'.status
  source : plan.source = plan'.source
  destination : plan.destination = plan'.destination
  layer : plan.layer = plan'.layer
  policyGeneration : plan.policyGeneration = plan'.policyGeneration
  constraintSet : plan.constraintSet = plan'.constraintSet
  constraintGeneration : plan.constraintGeneration = plan'.constraintGeneration
  diagnosticMode : plan.diagnosticMode = plan'.diagnosticMode
  snapshot : plan.evidence.snapshot = plan'.evidence.snapshot
  generations : plan.evidence.generations = plan'.evidence.generations
  evidenceSource : plan.evidence.source = plan'.evidence.source
  answers : plan.candidates.map Candidate.answer = plan'.candidates.map Candidate.answer

/-- Quantities of 64 bits are told apart by their words. -/
theorem littleEndian_value_inj {Tag : Type} {a b : UInt64Of Tag} :
    littleEndian 8 a.value = littleEndian 8 b.value ↔ a = b := by
  constructor
  · intro h
    have hvalue := congrArg ByteReader.ofLittleEndian h
    rw [ByteReader.ofLittleEndian_littleEndian a.lt,
      ByteReader.ofLittleEndian_littleEndian b.lt] at hvalue
    exact StrongUInt.ext_iff.mpr hvalue
  · rintro rfl
    rfl

/-- **The semantic encoding** depends on one publication sequence, the one in the evidence of the
plan, and on no generation. -/
theorem PathPlan.SameContent.semanticWord_eq_iff {plan plan' : PathPlan}
    (h : plan.SameContent plan') :
    plan.semanticWord = plan'.semanticWord ↔
      plan.evidence.publishSequence = plan'.evidence.publishSequence := by
  -- every other field is shared, so the words differ in this one place only
  have hwords := semanticWords_eq_of_answers_eq h.answers
  have hlength := congrArg List.length hwords
  rw [List.length_map, List.length_map] at hlength
  simp only [semanticWord, EvidenceVector.word, listWord, List.flatMap_def, h.request, h.status,
    h.source, h.destination, h.layer, h.policyGeneration, h.constraintSet, h.constraintGeneration,
    h.diagnosticMode, h.snapshot, h.generations, h.evidenceSource, hwords, hlength]
  simp only [List.append_assoc, List.append_cancel_left_eq, List.append_cancel_right_eq,
    littleEndian_value_inj]

/-! ## The identity of a result -/

/-- The results have the same status and the same candidates, in the same order. -/
structure PlanningResult.SameAnswer (result result' : PlanningResult) : Prop where
  status : result.status = result'.status
  answers : result.candidates.map Candidate.answer = result'.candidates.map Candidate.answer

/-- The results are named alike. -/
structure PlanningResult.SameIdentity (result result' : PlanningResult) : Prop where
  planId : result.planId = result'.planId
  semanticDigest : result.semanticDigest = result'.semanticDigest

/-- The name that a digest gives. -/
def planIdOf (digest : Sha256Digest) : PathPlanId :=
  if digest.isZero then default else FixedId.fromDigest digest

/-- The digest of an encoding; a result without one has no digest. -/
def identityDigest (sha : List UInt8 → Sha256Digest) (encoding : Option (List UInt8)) :
    Sha256Digest :=
  encoding.elim default sha

/-- Two encodings that differ have the same digest. -/
def IsDigestAccident (sha : List UInt8 → Sha256Digest) (encoding encoding' : Option (List UInt8)) :
    Prop :=
  encoding ≠ encoding' ∧ identityDigest sha encoding = identityDigest sha encoding'

theorem identityDigest_eq_iff {sha : List UInt8 → Sha256Digest}
    {encoding encoding' : Option (List UInt8)} :
    identityDigest sha encoding = identityDigest sha encoding' ↔
      encoding = encoding' ∨ IsDigestAccident sha encoding encoding' := by
  constructor
  · intro h
    by_cases heq : encoding = encoding'
    · exact Or.inl heq
    · exact Or.inr ⟨heq, h⟩
  · rintro (rfl | h)
    · rfl
    · exact h.2

namespace RuntimeState

variable {sha : List UInt8 → Sha256Digest} {capture capture' : PlanCapture}
  {request : PlanningRequest} {compared compared' published published' : RuntimeState}

/-- The semantic encoding that a call names its result by; a call that is refused names none. -/
def semanticEncoding (sha : List UInt8 → Sha256Digest) (capture : PlanCapture)
    (request : PlanningRequest) (compared : RuntimeState) : Option (List UInt8) :=
  match computePlan sha capture request with
  | .error _ => none
  | .ok computed => some (makePathPlan sha request (compared.comparePlan capture computed).result
      capture.publishSequence).semanticWord

/-- The calls are both refused, or both publish what they computed after they captured the same
publication sequence. -/
def SameSequence (sha : List UInt8 → Sha256Digest) (capture capture' : PlanCapture)
    (request : PlanningRequest) : Prop :=
  match computePlan sha capture request, computePlan sha capture' request with
  | .error _, .error _ => True
  | .ok _, .ok _ => capture.publishSequence = capture'.publishSequence
  | _, _ => False

/-- Calls that are not refused captured the same sequence when it is the same in both captures. -/
theorem sameSequence_of_isOk (h : (computePlan sha capture request).isOk = true)
    (h' : (computePlan sha capture' request).isOk = true)
    (hsequence : capture.publishSequence = capture'.publishSequence) :
    SameSequence sha capture capture' request := by
  unfold SameSequence
  cases hplan : computePlan sha capture request with
  | error _ =>
    rw [hplan] at h
    cases h
  | ok _ =>
    cases hplan' : computePlan sha capture' request with
    | error _ =>
      rw [hplan'] at h'
      cases h'
    | ok _ => exact hsequence

/-- **The name of a result** is the one of its encoding. -/
theorem planResult_identity :
    (planResult sha capture request compared published).semanticDigest =
        identityDigest sha (semanticEncoding sha capture request compared) ∧
      (planResult sha capture request compared published).planId =
        planIdOf (identityDigest sha (semanticEncoding sha capture request compared)) := by
  unfold planResult semanticEncoding
  cases h : computePlan sha capture request with
  | error result =>
    have hrefusal := (computePlan_eq_error h).1
    exact ⟨hrefusal.semanticDigest, hrefusal.planId⟩
  | ok computed =>
    have hdigest := PathPlan.computeSemanticDigest_eq sha (makePathPlan sha request
      (compared.comparePlan capture computed).result capture.publishSequence)
    refine ⟨hdigest, ?_⟩
    change planIdOf (PathPlan.computeSemanticDigest sha _) = planIdOf _
    exact congrArg planIdOf hdigest

/-- The results are named alike exactly when the digests agree. -/
theorem planResult_sameIdentity_iff_digest :
    (planResult sha capture request compared published).SameIdentity
        (planResult sha capture' request compared' published') ↔
      identityDigest sha (semanticEncoding sha capture request compared) =
        identityDigest sha (semanticEncoding sha capture' request compared') := by
  obtain ⟨hdigest, hid⟩ := @planResult_identity sha capture request compared published
  obtain ⟨hdigest', hid'⟩ := @planResult_identity sha capture' request compared' published'
  constructor
  · intro h
    rw [← hdigest, ← hdigest', h.semanticDigest]
  · intro h
    exact ⟨by rw [hid, hid', h], by rw [hdigest, hdigest', h]⟩

/-- Two computations over one snapshot that give the same answer make plans that differ in
bookkeeping alone. -/
theorem sameContent_of_passes (p : Passes sha capture request) (p' : Passes sha capture' request)
    (hsnapshot : capture.snapshot = capture'.snapshot) {result result' : PlanningResult}
    (hends : result.ends = p.result.ends) (hends' : result'.ends = p'.result.ends)
    (hevidence : result.evidence = p.result.evidence)
    (hevidence' : result'.evidence = p'.result.evidence) (hsame : result.SameAnswer result')
    (sequence sequence' : PlanPublishSequence) :
    (makePathPlan sha request result sequence).SameContent
      (makePathPlan sha request result' sequence') := by
  have hsnap : p.snapshot = p'.snapshot := Option.some.inj
    (p.snapshot_eq.symm.trans (hsnapshot.trans p'.snapshot_eq))
  have hsource : p.source = p'.source := Except.ok.inj
    (p.resolves_source.symm.trans (hsnap ▸ p'.resolves_source))
  have hdestination : p.destination = p'.destination := Except.ok.inj
    (p.resolves_destination.symm.trans (hsnap ▸ p'.resolves_destination))
  have hnodes : result.ends = result'.ends := by
    rw [hends, hends', p.ends_eq, p'.ends_eq, hsource, hdestination]
  simp only [PlanningResult.ends, Prod.mk.injEq] at hnodes
  rw [p.evidence_eq] at hevidence
  rw [p'.evidence_eq] at hevidence'
  constructor
  case status => exact hsame.status
  case source => exact hnodes.2.2.1
  case destination => exact hnodes.2.2.2
  case snapshot =>
    change result.evidence.snapshot = result'.evidence.snapshot
    rw [hevidence, hevidence', hsnap]
  case generations =>
    change result.evidence.generations = result'.evidence.generations
    rw [hevidence, hevidence', hsnap]
  case evidenceSource =>
    change result.evidence.source = result'.evidence.source
    rw [hevidence, hevidence', hsnap]
  case answers => exact hsame.answers
  all_goals rfl

/-- The comparison leaves the ends and the evidence alone. -/
theorem comparePlan_ends_evidence (computed : ComputedPlan) :
    (compared.comparePlan capture computed).result.ends = computed.result.ends ∧
      (compared.comparePlan capture computed).result.evidence = computed.result.evidence := by
  unfold comparePlan
  split_ifs
  · exact ⟨rfl, rfl⟩
  · exact ⟨rfl, rfl⟩

/-- What is compared gives the same answers as what is published. -/
theorem sameAnswer_comparePlan {computed computed' : ComputedPlan}
    (h : computePlan sha capture request = .ok computed)
    (h' : computePlan sha capture' request = .ok computed')
    (hsame : (planResult sha capture request compared published).SameAnswer
      (planResult sha capture' request compared' published')) :
    (compared.comparePlan capture computed).result.SameAnswer
      (compared'.comparePlan capture' computed').result := by
  unfold planResult at hsame
  rw [h, h'] at hsame
  obtain ⟨hstatus, hanswers⟩ := hsame
  rw [map_publishPlan (fun _ _ _ => rfl), map_publishPlan (fun _ _ _ => rfl)] at hanswers
  exact ⟨hstatus, hanswers⟩

/-- The encodings of two calls that give the same answer. -/
theorem semanticEncoding_eq_iff (hsnapshot : capture.snapshot = capture'.snapshot)
    (hsame : (planResult sha capture request compared published).SameAnswer
      (planResult sha capture' request compared' published')) :
    semanticEncoding sha capture request compared =
        semanticEncoding sha capture' request compared' ↔
      SameSequence sha capture capture' request := by
  unfold SameSequence semanticEncoding
  cases h : computePlan sha capture request with
  | error result =>
    cases h' : computePlan sha capture' request with
    | error result' => exact iff_of_true rfl trivial
    | ok computed' => exact iff_of_false (Option.some_ne_none _).symm id
  | ok computed =>
    cases h' : computePlan sha capture' request with
    | error result' => exact iff_of_false (Option.some_ne_none _) id
    | ok computed' =>
      have hanswer := sameAnswer_comparePlan h h' hsame
      obtain ⟨p, rfl⟩ := computePlan_eq_ok h
      obtain ⟨p', rfl⟩ := computePlan_eq_ok h'
      obtain ⟨hends, hevidence⟩ :=
        @comparePlan_ends_evidence capture compared ⟨p.snapshot, p.result, p.found.stats⟩
      obtain ⟨hends', hevidence'⟩ :=
        @comparePlan_ends_evidence capture' compared' ⟨p'.snapshot, p'.result, p'.found.stats⟩
      have hcontent := sameContent_of_passes p p' hsnapshot hends hends' hevidence hevidence'
        hanswer capture.publishSequence capture'.publishSequence
      dsimp only
      rw [Option.some_inj, hcontent.semanticWord_eq_iff, makePathPlan_evidence,
        makePathPlan_evidence, hevidence, hevidence', p.evidence_eq, p'.evidence_eq]

/-- **The same answer has the same name** exactly when the calls captured the same publication
sequence, but for accidents of the hash. The planning generations do not matter. -/
theorem planResult_sameIdentity_iff (hsnapshot : capture.snapshot = capture'.snapshot)
    (hsame : (planResult sha capture request compared published).SameAnswer
      (planResult sha capture' request compared' published')) :
    (planResult sha capture request compared published).SameIdentity
        (planResult sha capture' request compared' published') ↔
      SameSequence sha capture capture' request ∨
        IsDigestAccident sha (semanticEncoding sha capture request compared)
          (semanticEncoding sha capture' request compared') := by
  rw [planResult_sameIdentity_iff_digest, identityDigest_eq_iff,
    semanticEncoding_eq_iff hsnapshot hsame]

end RuntimeState

/-! ## An invalidation between two calls -/

/-- A hash that adds the bytes up. -/
def addingHash (bytes : List UInt8) : Sha256Digest := ⟨Vector.replicate 32 (bytes.foldl (· + ·) 1)⟩

/-- A runtime in which a link that no plan uses was invalidated. -/
def invalidatedLink : RuntimeState :=
  ((runtimeOver singleLink).applyInvalidation { links := [.tagged 0 9] }).1

/-- What a runtime answers for the path over the single link. -/
def answerOf (state : RuntimeState) : PlanningResult :=
  (state.plan addingHash (fun _ _ _ => .notRequested) (.between 1 2)).1

/-- The answers before and after the invalidation are the same, and their names are not. -/
theorem not_planResult_sameIdentity :
    (answerOf (runtimeOver singleLink)).SameAnswer (answerOf invalidatedLink) ∧
      (answerOf (runtimeOver singleLink)).status = .planned ∧
      (answerOf (runtimeOver singleLink)).planId ≠ (answerOf invalidatedLink).planId ∧
      (answerOf (runtimeOver singleLink)).semanticDigest ≠
        (answerOf invalidatedLink).semanticDigest ∧
      (makePathPlan addingHash (.between 1 2) (answerOf (runtimeOver singleLink))
          (.ofNat 0)).semanticWord ≠
        (makePathPlan addingHash (.between 1 2) (answerOf invalidatedLink) (.ofNat 0)).semanticWord :=
  ⟨⟨by decide +kernel, by decide +kernel⟩, by decide +kernel, by decide +kernel, by decide +kernel,
    by decide +kernel⟩

/-- What is captured by a call to another runtime over the link, which has a Path Authority and a lower
ceiling. -/
def captureElsewhere : PlanCapture :=
  ((RuntimeState.new { maxEnumerationCandidates := 1 } (some singleLink) true).capturePlan
    fun _ _ _ => .validated).1

/-- Calls to two runtimes name their answers alike. -/
theorem planResult_sameIdentity_singleLink :
    (RuntimeState.planResult addingHash (captureOver singleLink) (.between 1 2)
        (runtimeOver singleLink) (runtimeOver singleLink)).SameIdentity
      (RuntimeState.planResult addingHash captureElsewhere (.between 1 2)
        (runtimeOver singleLink) invalidatedLink) := by
  have hsequence : RuntimeState.SameSequence addingHash (captureOver singleLink) captureElsewhere
      (.between 1 2) :=
    RuntimeState.sameSequence_of_isOk (by decide +kernel) (by decide +kernel) rfl
  have hsnapshot : (captureOver singleLink).snapshot = captureElsewhere.snapshot := rfl
  have hsame : (RuntimeState.planResult addingHash (captureOver singleLink) (.between 1 2)
        (runtimeOver singleLink) (runtimeOver singleLink)).SameAnswer
      (RuntimeState.planResult addingHash captureElsewhere (.between 1 2)
        (runtimeOver singleLink) invalidatedLink) := ⟨by decide +kernel, by decide +kernel⟩
  exact (RuntimeState.planResult_sameIdentity_iff hsnapshot hsame).mpr (Or.inl hsequence)

end PathPlanner
