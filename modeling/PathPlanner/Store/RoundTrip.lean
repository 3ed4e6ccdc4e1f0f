import PathPlanner.Runtime.MemberLimit
import PathPlanner.Runtime.Produced
import PathPlanner.Store.Soundness

/-!
# The store round trip

The records of plans are written and read back. The writer checks less than the reader, so not every
image that is written is accepted: a plan has to be storable.

## Main definitions

* `StoredPlanRecord.structural`: a record without operational evidence
* `PathPlan.IsStorable`: what the reader asks of the record of a plan, on its own
* `PathPlan.IsPlanned`: a plan that is made of a result of the planner
* `RoundTrips`, `PathPlan.FitsStore`: what is to be shown, and when it holds

## Main results

* `decodePlanStore_encodePlanStore_iff`: exactly the images of storable plans are accepted
* `roundTrips_iff`: **planned plans are read back exactly when they fit the store**
-/

namespace PathPlanner

open Decoder

/-! ## Structural records -/

/-- A record without operational evidence. -/
def StoredPlanRecord.structural (record : StoredPlanRecord) : StoredPlanRecord :=
  { record with candidates := record.candidates.map CandidatePath.structural }

/-- A stored candidate without operational evidence. -/
def structuralRow (row : StoredCandidate) : StoredCandidate := (row.1.structural, row.2)

@[simp] theorem StoredPlanRecord.rows_structural (record : StoredPlanRecord) :
    record.structural.rows = record.rows.map structuralRow := by
  apply List.ext_getElem
  · simp [rows, structural]
  · intro i hi hi'
    simp [rows, structural, structuralRow]

@[simp] theorem StoredPlanRecord.word_structural (record : StoredPlanRecord) :
    record.structural.word = record.word := by
  have hrow (row : StoredCandidate) :
      storedCandidateWord (structuralRow row) = storedCandidateWord row := by
    unfold storedCandidateWord structuralRow
    rw [CandidatePath.word_structural]
  have hrows : listWord storedCandidateWord record.structural.rows =
      listWord storedCandidateWord record.rows := by
    rw [rows_structural, listWord, listWord, List.length_map, List.flatMap_map]
    simp only [hrow]
  unfold word
  rw [hrows]
  rfl

/-- The operational evidence is not part of an image. -/
theorem storeImage_map_structural (sha : List UInt8 → Sha256Digest) (sequence : PlanPublishSequence)
    (records : List StoredPlanRecord) :
    storeImage sha sequence (records.map StoredPlanRecord.structural) =
      storeImage sha sequence records := by
  have hpayload : storePayload sequence (records.map StoredPlanRecord.structural) =
      storePayload sequence records := by
    rw [storePayload, storePayload, listWord, listWord, List.length_map, List.flatMap_map]
    simp only [StoredPlanRecord.word_structural]
  unfold storeImage
  rw [hpayload, List.length_map]

/-- A successful call puts out what was computed. -/
theorem eq_ok_of_withOutput {α : Type} {out value : α} {e : Except StoreFailure α}
    (h : withOutput out e = ({ ok := true }, value)) : e = .ok value := by
  match e, h with
  | .ok value', h => rw [(Prod.mk.inj h).2]
  | .error failure, h => cases (Prod.mk.inj h).1

/-! ## Storable plans -/

section Storable

variable (sha : List UInt8 → Sha256Digest) (limits : ResourceLimits)

/-- What the reader asks of a candidate of a plan with some evidence. -/
structure Candidate.IsStorable (evidence : EvidenceVector) (c : Candidate) : Prop where
  path : c.path.structural.IsReadable limits.maxHops.toNat
  cost : c.cost.IsCoherent
  rank_le : c.rank.value ≤ maxCandidateRank
  hops_eq : c.cost.hops.value = c.path.hops.length
  generation_le : ∀ hop ∈ c.path.hops,
    hop.structuralGeneration.value ≤ evidence.generations.topology.value

/-- What the reader asks of the record of a plan, on its own. -/
structure PathPlan.IsStorable (plan : PathPlan) : Prop where
  request_isValid : plan.request.isValid = true
  id_isValid : plan.id.isValid = true
  constraintSet_isValid : plan.constraintSet.isValid = true
  source_isValid : plan.source.isValid = true
  destination_isValid : plan.destination.isValid = true
  layer_isKnown : WireEnum.IsKnown plan.layer
  snapshot_isValid : plan.evidence.snapshot.isValid = true
  length_le : plan.candidates.length ≤ limits.maxCandidatesPerRequest.toNat
  candidates : ∀ c ∈ plan.candidates, c.IsStorable limits plan.evidence
  ranks : plan.candidates.map (·.rank.value) = List.range' 1 plan.candidates.length
  ids_nodup : (plan.candidates.map (·.path.id sha)).Nodup
  totals : plan.candidates.Pairwise fun a b => a.cost.total ≤ b.cost.total
  digest_eq : (fromStoredRecord sha (toStoredRecord plan)).computeSemanticDigest sha =
    plan.semanticDigest

/-- The row of a candidate. -/
def Candidate.row (c : Candidate) : StoredCandidate := (c.path, c.cost, c.rank)

@[simp] theorem rows_toStoredRecord (plan : PathPlan) :
    (toStoredRecord plan).rows = plan.candidates.map Candidate.row :=
  StoredPlanRecord.rows_eq (by simp [toStoredRecord, Candidate.row])
    (by simp [toStoredRecord, Candidate.row]) (by simp [toStoredRecord, Candidate.row])

/-- The candidate of a row in a recovered plan. -/
def recoveredCandidate (evidence : EvidenceVector) (row : StoredCandidate) : Candidate where
  path := row.1
  id := row.1.id sha
  cost := row.2.1
  rank := row.2.2
  evidence := evidence
  currentness := .revalidationRequired
  authority := .notRequested

theorem candidates_fromStoredRecord (record : StoredPlanRecord) :
    (fromStoredRecord sha record).candidates =
      record.rows.map (recoveredCandidate sha record.evidence) := by
  apply List.ext_getElem
  · simp [fromStoredRecord, StoredPlanRecord.rows]
  · intro i hi hi'
    simp [fromStoredRecord, StoredPlanRecord.rows, recoveredCandidate]

/-- The operational evidence does not enter the digest. -/
theorem computeSemanticDigest_fromStoredRecord_structural (record : StoredPlanRecord) :
    (fromStoredRecord sha record.structural).computeSemanticDigest sha =
      (fromStoredRecord sha record).computeSemanticDigest sha := by
  have hcandidate (row : StoredCandidate) :
      (recoveredCandidate sha record.evidence (structuralRow row)).semanticWord =
        (recoveredCandidate sha record.evidence row).semanticWord := by
    change _ ++ _ ++ _ ++ _ ++ _ ++ _ ++ _ = _
    simp only [recoveredCandidate, structuralRow, CandidatePath.id_structural]
    rfl
  have hcandidates : listWord Candidate.semanticWord
      (fromStoredRecord sha record.structural).candidates =
        listWord Candidate.semanticWord (fromStoredRecord sha record).candidates := by
    rw [candidates_fromStoredRecord, candidates_fromStoredRecord,
      StoredPlanRecord.rows_structural, List.map_map, listWord, listWord, List.length_map,
      List.length_map, List.flatMap_map, List.flatMap_map]
    exact congrArg _ (List.flatMap_congr fun row _ => hcandidate row)
  rw [PathPlan.computeSemanticDigest_eq, PathPlan.computeSemanticDigest_eq]
  unfold PathPlan.semanticWord
  rw [hcandidates]
  rfl

/-- **The record of a plan** is accepted after other records exactly when the plan is storable and
none of the records is of the plan. -/
theorem isReadable_structural_toStoredRecord_iff {plan : PathPlan}
    {before : List StoredPlanRecord} :
    (toStoredRecord plan).structural.IsReadable sha limits before ↔
      plan.IsStorable sha limits ∧ plan.id ∉ before.map (·.plan) := by
  have hrows : (toStoredRecord plan).structural.rows =
      plan.candidates.map fun c => structuralRow c.row := by
    rw [StoredPlanRecord.rows_structural, rows_toStoredRecord, List.map_map]
    rfl
  have hlength : (toStoredRecord plan).structural.candidates.length = plan.candidates.length := by
    simp [toStoredRecord, StoredPlanRecord.structural]
  have hids : (plan.candidates.map fun c => structuralRow c.row).map (·.1.id sha) =
      plan.candidates.map (·.path.id sha) := by
    rw [List.map_map]
    exact List.map_congr_left fun c _ => CandidatePath.id_structural sha c.path
  have hranks : (plan.candidates.map fun c => structuralRow c.row).map (·.2.2.value) =
      plan.candidates.map (·.rank.value) := by
    rw [List.map_map]
    rfl
  constructor
  · intro h
    have hreadable := h.rows_isReadable
    rw [hrows] at hreadable
    refine ⟨⟨h.request_isValid, h.plan_isValid, h.constraintSet_isValid, h.source_isValid,
      h.destination_isValid, h.layer_isKnown, h.snapshot_isValid, hlength ▸ h.length_le,
      fun c hc => ?_, ?_, ?_, ?_, ?_⟩, h.plan_new⟩
    · obtain ⟨rows, after, hsplit⟩ := List.append_of_mem
        (List.mem_map_of_mem (f := fun c : Candidate => structuralRow c.row) hc)
      have hrow := hreadable rows _ after hsplit
      refine ⟨hrow.path_isReadable, hrow.cost_isCoherent, hrow.rank_le, ?_, fun hop hh => ?_⟩
      · have hhops := hrow.hops_eq
        change c.cost.hops.value = (c.path.hops.map PathHop.structural).length at hhops
        rwa [List.length_map] at hhops
      · exact hrow.generation_le hop.structural (List.mem_map_of_mem hh)
    · have hnumbered := eachAfter_eq_length_iff.mp (hreadable.imp fun _ _ hrow => hrow.rank_eq)
      rwa [hranks, List.length_map] at hnumbered
    · have hnew := eachAfter_notMem_iff.mp (hreadable.imp fun _ _ hrow => hrow.id_new)
      rwa [hids] at hnew
    · have hchain := ((List.isChain_map PathCost.total).mpr h.costs_isChain).pairwise
      change ((plan.candidates.map (·.cost)).map PathCost.total).Pairwise (· ≤ ·) at hchain
      rwa [List.map_map, List.pairwise_map] at hchain
    · rw [← computeSemanticDigest_fromStoredRecord_structural]
      exact h.digest_eq
  · rintro ⟨h, hnew⟩
    refine
      { request_isValid := h.request_isValid
        plan_isValid := h.id_isValid
        constraintSet_isValid := h.constraintSet_isValid
        source_isValid := h.source_isValid
        destination_isValid := h.destination_isValid
        layer_isKnown := h.layer_isKnown
        snapshot_isValid := h.snapshot_isValid
        length_le := hlength ▸ h.length_le
        costs_length := by simp [toStoredRecord, StoredPlanRecord.structural]
        ranks_length := by simp [toStoredRecord, StoredPlanRecord.structural]
        rows_isReadable := ?_
        costs_isChain := ?_
        plan_new := hnew
        digest_eq := ?_ }
    · rw [hrows]
      have hnumbered := eachAfter_eq_length_iff.mpr
        (hranks.trans (h.ranks.trans (by rw [List.length_map])))
      have hnewIds := eachAfter_notMem_iff.mpr (hids.symm ▸ h.ids_nodup)
      intro rows row after hsplit
      have hmem : row ∈ plan.candidates.map fun c => structuralRow c.row := by
        rw [hsplit]
        exact List.mem_append_right _ List.mem_cons_self
      have hrank := hnumbered rows row after hsplit
      have hid := hnewIds rows row after hsplit
      obtain ⟨c, hc, rfl⟩ := List.mem_map.mp hmem
      have hstorable := h.candidates c hc
      refine ⟨hstorable.path, hstorable.cost, hstorable.rank_le, hrank, ?_, fun hop hh => ?_, hid⟩
      · change c.cost.hops.value = (c.path.hops.map PathHop.structural).length
        rw [List.length_map]
        exact hstorable.hops_eq
      · obtain ⟨source, hsource, rfl⟩ := List.mem_map.mp hh
        exact hstorable.generation_le source hsource
    · change (plan.candidates.map (·.cost)).IsChain _
      rw [← List.isChain_map PathCost.total, List.map_map]
      exact (List.pairwise_map.mpr h.totals).isChain
    · rw [computeSemanticDigest_fromStoredRecord_structural]
      exact h.digest_eq

/-- The records of plans are accepted when the plans are storable and have different identities. -/
theorem areReadable_structural_toStoredRecord_iff {plans : List PathPlan} :
    AreReadable sha limits (plans.map fun plan => (toStoredRecord plan).structural) ↔
      plans.length ≤ limits.maxPersistedPlans.toNat ∧ (plans.map (·.id)).Nodup ∧
        ∀ plan ∈ plans, plan.IsStorable sha limits := by
  have hids : (plans.map fun plan => (toStoredRecord plan).structural).map (·.plan) =
      plans.map (·.id) := by
    rw [List.map_map]
    rfl
  unfold AreReadable
  rw [List.length_map]
  refine and_congr_right fun _ => ?_
  constructor
  · intro h
    refine ⟨hids ▸ eachAfter_notMem_iff.mp (h.imp fun _ _ hrecord => hrecord.plan_new),
      fun plan hplan => ?_⟩
    obtain ⟨before, after, hsplit⟩ := List.append_of_mem
      (List.mem_map_of_mem (f := fun plan : PathPlan => (toStoredRecord plan).structural) hplan)
    exact ((isReadable_structural_toStoredRecord_iff sha limits).mp (h before _ after hsplit)).1
  · rintro ⟨hnodup, hstorable⟩ before record after hsplit
    have hnew := eachAfter_notMem_iff.mpr (hids.symm ▸ hnodup) before record after hsplit
    have hmem : record ∈ plans.map fun plan => (toStoredRecord plan).structural := by
      rw [hsplit]
      exact List.mem_append_right _ List.mem_cons_self
    obtain ⟨plan, hplan, rfl⟩ := List.mem_map.mp hmem
    exact (isReadable_structural_toStoredRecord_iff sha limits).mpr ⟨hstorable plan hplan, hnew⟩

/-- **Exactly the images of storable plans**, with different identities, are accepted: as the records
of the plans without operational evidence. -/
theorem decodePlanStore_encodePlanStore_iff {plans : List PathPlan}
    {sequence : PlanPublishSequence} {image out : List UInt8} {records : List StoredPlanRecord}
    (hencode : encodePlanStore sha (plans.map toStoredRecord) ⟨limits, sequence⟩ out =
      ({ ok := true }, image)) :
    decodePlanStore sha limits image records =
        some ({ ok := true }, plans.map fun plan => (toStoredRecord plan).structural) ↔
      (plans.map (·.id)).Nodup ∧ ∀ plan ∈ plans, plan.IsStorable sha limits := by
  obtain ⟨-, hcount, -, hfits, rfl⟩ := encodeImage_eq_ok_iff.mp (eq_ok_of_withOutput hencode)
  dsimp only at hcount hfits ⊢
  rw [List.length_map] at hcount
  have hlength : (storeImage sha sequence (plans.map toStoredRecord)).length < 2 ^ 64 := by
    have hceiling : storePayloadCeiling limits < 2 ^ 32 := UInt32.toNat_lt _
    rw [length_storeImage]
    simp only [storeHeaderBytes, storeDigestBytes, sha256Bytes]
    omega
  have hstructural : storeImage sha sequence (plans.map fun plan =>
      (toStoredRecord plan).structural) = storeImage sha sequence (plans.map toStoredRecord) := by
    rw [← storeImage_map_structural sha sequence (plans.map toStoredRecord), List.map_map]
    rfl
  rw [decodePlanStore_eq_some_ok_iff, decodeImage_eq_ok_iff,
    areReadable_structural_toStoredRecord_iff, and_assoc, and_iff_right hcount]
  constructor
  · exact fun h => h.1
  · exact fun h => ⟨h, sequence, hstructural.symm, hlength⟩

/-- An image that is accepted holds as many records as were written. -/
theorem length_eq_of_decodePlanStore {records records' : List StoredPlanRecord}
    {sequence : PlanPublishSequence} {image out : List UInt8} {out' : List StoredPlanRecord}
    {sha : List UInt8 → Sha256Digest} {limits : ResourceLimits}
    (hencode : encodePlanStore sha records ⟨limits, sequence⟩ out = ({ ok := true }, image))
    (hdecode : decodePlanStore sha limits image out' = some ({ ok := true }, records')) :
    records'.length = records.length := by
  obtain ⟨-, hcount, -, -, himage⟩ := encodeImage_eq_ok_iff.mp (eq_ok_of_withOutput hencode)
  obtain ⟨hreadable, sequence', himage', -⟩ :=
    (decodeImage_eq_ok_iff sha limits).mp ((decodePlanStore_eq_some_ok_iff sha limits).mp hdecode)
  have hceiling : limits.maxPersistedPlans.toNat < 256 ^ 8 := ByteReader.ceiling_lt _
  have hheader : storeHeader records'.length (storePayload sequence' records').length =
      storeHeader records.length (storePayload sequence records).length := by
    rw [← (take_drop_storeImage sha sequence' records').1,
      ← (take_drop_storeImage sha sequence records).1, ← himage', ← himage]
  -- the count is the last but one field of the header
  have hcounts : littleEndian 8 records'.length = littleEndian 8 records.length :=
    (List.append_inj' (List.append_inj' hheader (by simp)).1 (by simp)).2
  rw [← ByteReader.ofLittleEndian_littleEndian (hreadable.1.trans_lt hceiling), hcounts,
    ByteReader.ofLittleEndian_littleEndian (hcount.trans_lt hceiling)]

/-- The digest of a plan whose candidates are named after their paths is that of its record. -/
theorem computeSemanticDigest_fromStoredRecord_makePathPlan {request : PlanningRequest}
    {result : PlanningResult} {sequence : PlanPublishSequence}
    (hids : ∀ c ∈ result.candidates, c.id = c.path.id sha) :
    (fromStoredRecord sha (toStoredRecord
        (makePathPlan sha request result sequence))).computeSemanticDigest sha =
      (makePathPlan sha request result sequence).semanticDigest := by
  set plan := makePathPlan sha request result sequence with hplan
  have hword (c : Candidate) (hc : c ∈ plan.candidates) :
      (recoveredCandidate sha plan.evidence c.row).semanticWord = c.semanticWord := by
    unfold Candidate.semanticWord recoveredCandidate Candidate.row
    dsimp only
    rw [hids c hc]
  have hwords : listWord Candidate.semanticWord
      (fromStoredRecord sha (toStoredRecord plan)).candidates =
        listWord Candidate.semanticWord plan.candidates := by
    rw [candidates_fromStoredRecord, rows_toStoredRecord, List.map_map, listWord, listWord,
      List.length_map, List.flatMap_map]
    exact congrArg _ (List.flatMap_congr hword)
  have hdigest : plan.semanticDigest = plan.computeSemanticDigest sha := by
    rw [PathPlan.computeSemanticDigest_eq]
    exact PathPlan.computeSemanticDigest_eq _ _
  rw [hdigest, PathPlan.computeSemanticDigest_eq, PathPlan.computeSemanticDigest_eq]
  unfold PathPlan.semanticWord
  rw [hwords]
  rfl

end Storable

/-! ## Planned plans -/

section Planned

variable {sha : List UInt8 → Sha256Digest} {limits : ResourceLimits} {plan : PathPlan}

/-- A plan that is made of a result of the planner whose status carries candidates. -/
def PathPlan.IsPlanned (sha : List UInt8 → Sha256Digest) (plan : PathPlan) : Prop :=
  ∃ (capture : PlanCapture) (request : PlanningRequest) (compared published : RuntimeState)
    (sequence : PlanPublishSequence),
    (RuntimeState.planResult sha capture request compared published).status.carriesCandidates =
      true ∧
    plan = makePathPlan sha request
      (RuntimeState.planResult sha capture request compared published) sequence

/-- A status that carries candidates is the answer to a valid request. -/
theorem RuntimeState.validateRequest_of_carriesCandidates {capture : PlanCapture}
    {request : PlanningRequest} {compared published : RuntimeState}
    (h : (planResult sha capture request compared published).status.carriesCandidates = true) :
    validateRequest request capture.limits = none := by
  cases hvalid : validateRequest request capture.limits with
  | none => rfl
  | some problem =>
    have hresult : planResult sha capture request compared published = PlanningResult.refuse {}
        (statusForValidationCode problem.code) problem.code problem.detail := by
      unfold planResult computePlan checkRequest
      rw [hvalid]
      rfl
    rw [hresult] at h
    have hstatus := carriesCandidates_statusForValidationCode problem.code
    exact absurd (h.symm.trans hstatus) (by decide)

/-- A valid request names itself and its constraint set, and a known layer. -/
theorem validateRequest_isValid {request : PlanningRequest}
    (h : validateRequest request limits = none) :
    request.id.isValid = true ∧ request.constraints.id.isValid = true ∧
      WireEnum.IsKnown request.constraints.layer := by
  have hvalid := validateRequest_eq_none_iff.mp h
  have hshape := firstProblem_eq_none_iff.mp hvalid.1
  have hforbidden := firstProblem_eq_none_iff.mp hvalid.2.1.1
  simp only [List.forall_mem_cons, Bool.not_eq_false'] at hshape hforbidden
  exact ⟨hshape.1, hforbidden.1, hshape.2.2.2.2.2.1⟩

/-- The identities and the layer of a planned plan. -/
theorem PathPlan.IsPlanned.isValid (h : plan.IsPlanned sha) :
    plan.constraintSet.isValid = true ∧ WireEnum.IsKnown plan.layer := by
  obtain ⟨capture, request, compared, published, sequence, hstatus, rfl⟩ := h
  exact (validateRequest_isValid (RuntimeState.validateRequest_of_carriesCandidates hstatus)).2

/-- The candidates of a planned plan are produced and ranked. -/
theorem PathPlan.IsPlanned.candidates (h : plan.IsPlanned sha) :
    (∀ c ∈ plan.candidates, c.IsProduced sha plan.evidence) ∧
      plan.candidates.map (·.rank.value) = List.range' 1 plan.candidates.length ∧
      plan.candidates.Pairwise fun a b => a.cost.total ≤ b.cost.total := by
  obtain ⟨capture, request, compared, published, sequence, -, rfl⟩ := h
  rcases @RuntimeState.planResult_cases_produced sha capture request compared published with
    hrefusal | hproduced
  · rw [makePathPlan_candidates, hrefusal.candidates]
    exact ⟨fun c hc => absurd hc List.not_mem_nil, rfl, List.Pairwise.nil⟩
  · exact ⟨hproduced.candidates, hproduced.ranks, hproduced.totals⟩

/-- The digest of a planned plan is that of its record. -/
theorem PathPlan.IsPlanned.digest_eq (h : plan.IsPlanned sha) :
    (fromStoredRecord sha (toStoredRecord plan)).computeSemanticDigest sha =
      plan.semanticDigest := by
  have hcandidates := h.candidates.1
  obtain ⟨capture, request, compared, published, sequence, -, rfl⟩ := h
  exact computeSemanticDigest_fromStoredRecord_makePathPlan sha fun c hc => (hcandidates c hc).id_eq

/-- **When a planned plan fits the store**: it names its snapshot and its ends, its paths are short
enough for the store and have different identities, and no hop is newer than the topology. -/
structure PathPlan.FitsStore (sha : List UInt8 → Sha256Digest) (limits : ResourceLimits)
    (plan : PathPlan) : Prop where
  source_isValid : plan.source.isValid = true
  destination_isValid : plan.destination.isValid = true
  snapshot_isValid : plan.evidence.snapshot.isValid = true
  hops_le : ∀ c ∈ plan.candidates, c.path.hops.length ≤ limits.maxHops.toNat
  generation_le : ∀ c ∈ plan.candidates, ∀ hop ∈ c.path.hops,
    hop.structuralGeneration.value ≤ plan.evidence.generations.topology.value
  ids_nodup : (plan.candidates.map (·.path.id sha)).Nodup

/-- The ranks that coherent limits admit are within their range. -/
theorem maxCandidatesPerRequest_le (h : validateLimits limits = none) :
    limits.maxCandidatesPerRequest.toNat ≤ maxCandidateRank := by
  unfold validateLimits at h
  split_ifs at h with _ hcandidates
  exact not_lt.mp fun hlt => hcandidates (Or.inr hlt)

/-- **A planned plan** that the writer accepts is storable exactly when it fits the store. -/
theorem PathPlan.IsPlanned.isStorable_iff (h : plan.IsPlanned sha)
    (hlimits : validateLimits limits = none) (hw : (toStoredRecord plan).IsWritable limits) :
    plan.IsStorable sha limits ↔ plan.FitsStore sha limits := by
  obtain ⟨hproduced, hranks, htotals⟩ := h.candidates
  have hlength : plan.candidates.length ≤ limits.maxCandidatesPerRequest.toNat := by
    have hle := hw.length_le
    rwa [toStoredRecord, List.length_map] at hle
  constructor
  · intro hs
    exact ⟨hs.source_isValid, hs.destination_isValid, hs.snapshot_isValid,
      fun c hc => (hproduced c hc).isReadable_structural_iff.mp (hs.candidates c hc).path,
      fun c hc => (hs.candidates c hc).generation_le, hs.ids_nodup⟩
  · intro hf
    refine
      { request_isValid := hw.request_isValid
        id_isValid := hw.plan_isValid
        constraintSet_isValid := h.isValid.1
        source_isValid := hf.source_isValid
        destination_isValid := hf.destination_isValid
        layer_isKnown := h.isValid.2
        snapshot_isValid := hf.snapshot_isValid
        length_le := hlength
        candidates := fun c hc => ?_
        ranks := hranks
        ids_nodup := hf.ids_nodup
        totals := htotals
        digest_eq := h.digest_eq }
    have hrank : c.rank.value ≤ maxCandidateRank := by
      have hmem : c.rank.value ∈ List.range' 1 plan.candidates.length :=
        hranks ▸ List.mem_map_of_mem hc
      rw [List.mem_range'_1] at hmem
      have hceiling := maxCandidatesPerRequest_le hlimits
      omega
    exact ⟨(hproduced c hc).isReadable_structural_iff.mpr (hf.hops_le c hc),
      (hproduced c hc).cost_isCoherent, hrank, (hproduced c hc).hops_eq, hf.generation_le c hc⟩

/-- A path that was accepted has no operational evidence. -/
theorem CandidatePath.IsReadable.structural_eq {path : CandidatePath} {maxHops : ℕ}
    (h : path.IsReadable maxHops) : path.structural = path := by
  have hhops : path.hops.map PathHop.structural = path.hops :=
    (List.map_congr_left fun hop hh => (h.hops_isReadable hop hh).structural_eq).trans
      (List.map_id' _)
  unfold CandidatePath.structural
  rw [hhops]

/-- A record that was accepted has no operational evidence. -/
theorem StoredPlanRecord.IsReadable.structural_eq {record : StoredPlanRecord}
    {before : List StoredPlanRecord} (h : record.IsReadable sha limits before) :
    record.structural = record := by
  obtain ⟨hcandidates, -, -⟩ := StoredPlanRecord.map_rows h.costs_length h.ranks_length
  have hpath (path : CandidatePath) (hp : path ∈ record.candidates) : path.structural = path := by
    rw [← hcandidates] at hp
    obtain ⟨row, hrow, rfl⟩ := List.mem_map.mp hp
    obtain ⟨rows, after, hsplit⟩ := List.append_of_mem hrow
    exact (h.rows_isReadable rows row after hsplit).path_isReadable.structural_eq
  have hpaths : record.candidates.map CandidatePath.structural = record.candidates :=
    (List.map_congr_left hpath).trans (List.map_id' _)
  unfold StoredPlanRecord.structural
  rw [hpaths]

/-! ## The round trip -/

/-- What a recovered plan has to share with the plan that was stored. -/
structure PathPlan.IsRecoveredAs (plan recovered : PathPlan) : Prop where
  id_eq : recovered.id = plan.id
  digest_eq : recovered.semanticDigest = plan.semanticDigest
  ids_eq : recovered.candidates.map (·.id) = plan.candidates.map (·.id)
  costs_eq : recovered.candidates.map (·.cost) = plan.candidates.map (·.cost)
  ranks_eq : recovered.candidates.map (·.rank) = plan.candidates.map (·.rank)
  currentnessProven_eq : recovered.currentnessProven = false
  currentness : ∀ c ∈ recovered.candidates, c.currentness = .revalidationRequired

/-- **An image is read back** as the records of plans, up to operational evidence, from which the
plans are recovered. -/
def RoundTrips (sha : List UInt8 → Sha256Digest) (limits : ResourceLimits) (plans : List PathPlan)
    (image : List UInt8) : Prop :=
  ∀ out, ∃ records, decodePlanStore sha limits image out = some ({ ok := true }, records) ∧
    records.map StoredPlanRecord.structural =
      plans.map (fun plan => (toStoredRecord plan).structural) ∧
    List.Forall₂ (fun plan record => plan.IsRecoveredAs (fromStoredRecord sha record)) plans records

/-- A planned plan is recovered from its record. -/
theorem PathPlan.IsPlanned.isRecoveredAs (h : plan.IsPlanned sha) :
    plan.IsRecoveredAs (fromStoredRecord sha (toStoredRecord plan).structural) := by
  have hcandidates : (fromStoredRecord sha (toStoredRecord plan).structural).candidates =
      plan.candidates.map fun c => recoveredCandidate sha plan.evidence (structuralRow c.row) := by
    rw [candidates_fromStoredRecord, StoredPlanRecord.rows_structural, rows_toStoredRecord,
      List.map_map, List.map_map]
    rfl
  refine ⟨rfl, rfl, ?_, ?_, ?_, rfl, fun c hc => ?_⟩
  · rw [hcandidates, List.map_map]
    refine List.map_congr_left fun c hc => ?_
    rw [(h.candidates.1 c hc).id_eq]
    exact CandidatePath.id_structural sha c.path
  · rw [hcandidates, List.map_map]
    rfl
  · rw [hcandidates, List.map_map]
    rfl
  · rw [hcandidates] at hc
    obtain ⟨c, -, rfl⟩ := List.mem_map.mp hc
    rfl

/-- Plans whose image is read back are storable. -/
theorem RoundTrips.isStorable {plans : List PathPlan} {sequence : PlanPublishSequence}
    {image out : List UInt8} (h : RoundTrips sha limits plans image)
    (hencode : encodePlanStore sha (plans.map toStoredRecord) ⟨limits, sequence⟩ out =
      ({ ok := true }, image)) : ∀ plan ∈ plans, plan.IsStorable sha limits := by
  obtain ⟨records, hdecode, hrecords, -⟩ := h []
  -- what is read has no operational evidence, so it is what the writer left of the records
  obtain ⟨hreadable, -⟩ :=
    (decodeImage_eq_ok_iff sha limits).mp ((decodePlanStore_eq_some_ok_iff sha limits).mp hdecode)
  have hstructural := eachAfter_const_iff.mp
    (hreadable.2.imp fun _ _ hrecord => hrecord.structural_eq)
  rw [(List.map_congr_left hstructural).trans (List.map_id' _)] at hrecords
  rw [hrecords] at hdecode
  exact ((decodePlanStore_encodePlanStore_iff sha limits hencode).mp hdecode).2

/-- **Round trip**: the image of planned plans with different identities is read back exactly when
each plan fits the store. -/
theorem roundTrips_iff {plans : List PathPlan} {sequence : PlanPublishSequence}
    {image out : List UInt8} (hplanned : ∀ plan ∈ plans, plan.IsPlanned sha)
    (hids : (plans.map (·.id)).Nodup)
    (hencode : encodePlanStore sha (plans.map toStoredRecord) ⟨limits, sequence⟩ out =
      ({ ok := true }, image)) :
    RoundTrips sha limits plans image ↔ ∀ plan ∈ plans, plan.FitsStore sha limits := by
  obtain ⟨hlimits, -, hwritable, -⟩ := encodeImage_eq_ok_iff.mp (eq_ok_of_withOutput hencode)
  have hstorable : (∀ plan ∈ plans, plan.IsStorable sha limits) ↔
      ∀ plan ∈ plans, plan.FitsStore sha limits :=
    forall₂_congr fun plan hplan => (hplanned plan hplan).isStorable_iff hlimits
      (hwritable _ (List.mem_map_of_mem hplan))
  rw [← hstorable]
  constructor
  · exact fun h => h.isStorable hencode
  · intro h records
    refine ⟨_, (decodePlanStore_encodePlanStore_iff sha limits hencode).mpr ⟨hids, h⟩, ?_, ?_⟩
    · have hidempotent (record : StoredPlanRecord) :
          record.structural.structural = record.structural := by
        simp [StoredPlanRecord.structural, CandidatePath.structural, PathHop.structural]
      rw [List.map_map]
      exact List.map_congr_left fun plan _ => hidempotent _
    · rw [List.forall₂_map_right_iff, List.forall₂_same]
      exact fun plan hplan => (hplanned plan hplan).isRecoveredAs

end Planned

/-! ### A path of two hops -/

/-- A new runtime over three nodes in a line. -/
def lineRuntime (limits : ResourceLimits) : RuntimeState := .new limits (some sharedDomain) false

/-- What it plans from the first node to the last one. -/
def lineResult (limits : ResourceLimits) : PlanningResult :=
  RuntimeState.planResult flatHash ((lineRuntime limits).capturePlan fun _ _ _ => .notRequested).1
    (.between 1 3) (lineRuntime limits) (lineRuntime limits)

/-- The plan made of it. -/
def linePlan (limits : ResourceLimits) : PathPlan :=
  makePathPlan flatHash (.between 1 3) (lineResult limits) (.ofNat 0)

/-- The image of its record. -/
def lineImage (limits : ResourceLimits) : List UInt8 :=
  storeImage flatHash (.ofNat 0) ([linePlan limits].map toStoredRecord)

/-- The length of its payload does not depend on the digest. -/
theorem length_storePayload_linePlan (limits : ResourceLimits) :
    (storePayload (.ofNat 0) ([linePlan limits].map toStoredRecord)).length =
      (storePayload (.ofNat 0) [{ toStoredRecord (linePlan limits) with
        plan := default
        semanticDigest := default }]).length := by
  simp only [storePayload, listWord, List.map_cons, List.map_nil, List.flatMap_cons,
    List.flatMap_nil, StoredPlanRecord.word, List.length_append, FixedId.length_word,
    Sha256Digest.length_word]
  rfl

/-- The writer accepts the plan. -/
structure WritesLinePlan (limits : ResourceLimits) : Prop where
  carriesCandidates : (lineResult limits).status.carriesCandidates = true
  length_le : (linePlan limits).candidates.length ≤ limits.maxCandidatesPerRequest.toNat
  payload_le : (storePayload (.ofNat 0) [{ toStoredRecord (linePlan limits) with
    plan := default
    semanticDigest := default }]).length ≤ storePayloadCeiling limits

theorem WritesLinePlan.isPlanned {limits : ResourceLimits} (h : WritesLinePlan limits) :
    ∀ plan ∈ [linePlan limits], plan.IsPlanned flatHash :=
  List.forall_mem_singleton.mpr ⟨_, _, _, _, _, h.carriesCandidates, rfl⟩

theorem WritesLinePlan.encodePlanStore_eq {limits : ResourceLimits} (h : WritesLinePlan limits)
    (hlimits : validateLimits limits = none) (hcount : 0 < limits.maxPersistedPlans.toNat) :
    encodePlanStore flatHash ([linePlan limits].map toStoredRecord) ⟨limits, .ofNat 0⟩ [] =
      ({ ok := true }, lineImage limits) := by
  have hrequest : (linePlan limits).request.isValid = true := by
    change (PlanningRequest.between 1 3).id.isValid = true
    decide
  have hid : (linePlan limits).id.isValid = true := by
    change (PathPlan.computePlanId flatHash _).isValid = true
    unfold PathPlan.computePlanId flatHash
    rw [PathPlan.computeSemanticDigest_eq]
    decide +kernel
  have hwritable : (toStoredRecord (linePlan limits)).IsWritable limits :=
    ⟨hid, hrequest, by simp [toStoredRecord], by simpa [toStoredRecord] using h.length_le⟩
  have hencode : encodeImage flatHash ([linePlan limits].map toStoredRecord) ⟨limits, .ofNat 0⟩ =
      .ok (lineImage limits) :=
    encodeImage_eq_ok_iff.mpr
      ⟨hlimits, hcount, List.forall_mem_singleton.mpr hwritable,
        (length_storePayload_linePlan limits).trans_le h.payload_le, rfl⟩
  unfold encodePlanStore
  rw [hencode]
  rfl

instance decidableWritesLinePlan (limits : ResourceLimits) : Decidable (WritesLinePlan limits) :=
  decidable_of_iff ((lineResult limits).status.carriesCandidates = true ∧
    (linePlan limits).candidates.length ≤ limits.maxCandidatesPerRequest.toNat ∧
      (storePayload (.ofNat 0) [{ toStoredRecord (linePlan limits) with
        plan := default
        semanticDigest := default }]).length ≤ storePayloadCeiling limits)
    ⟨fun h => ⟨h.1, h.2.1, h.2.2⟩, fun h => ⟨h.1, h.2, h.3⟩⟩

/-- Under the default limits the plan is read back. -/
theorem roundTrips_linePlan : RoundTrips flatHash {} [linePlan {}] (lineImage {}) := by
  have hwrites : WritesLinePlan {} := by decide +kernel
  have hfits : ((linePlan {}).source.isValid = true ∧ (linePlan {}).destination.isValid = true ∧
      (linePlan {}).evidence.snapshot.isValid = true) ∧
      (∀ c ∈ (linePlan {}).candidates, c.path.hops.length ≤ 512) ∧
      (∀ c ∈ (linePlan {}).candidates, ∀ hop ∈ c.path.hops, hop.structuralGeneration.value ≤
        (linePlan {}).evidence.generations.topology.value) ∧
      ((linePlan {}).candidates.map (·.path.id flatHash)).Nodup := by
    decide +kernel
  exact (roundTrips_iff hwrites.isPlanned (List.nodup_singleton _)
    (hwrites.encodePlanStore_eq (by decide) (by decide))).mpr (List.forall_mem_singleton.mpr
      ⟨hfits.1.1, hfits.1.2.1, hfits.1.2.2, hfits.2.1, hfits.2.2.1, hfits.2.2.2⟩)

/-- The planner exceeds a limit of one hop, and the plan is not read back. -/
theorem not_roundTrips_linePlan :
    ¬ ∀ (sha : List UInt8 → Sha256Digest) (limits : ResourceLimits) (plans : List PathPlan)
      (sequence : PlanPublishSequence) (image out : List UInt8), validateLimits limits = none →
      plans.length ≤ limits.maxPersistedPlans.toNat → (plans.map (·.id)).Nodup →
      (∀ plan ∈ plans, plan.IsPlanned sha) →
      encodePlanStore sha (plans.map toStoredRecord) ⟨limits, sequence⟩ out =
        ({ ok := true }, image) → RoundTrips sha limits plans image := by
  intro h
  have hwrites : WritesLinePlan { maxHops := 1 } := by decide +kernel
  have hencode := hwrites.encodePlanStore_eq (by decide) (by decide)
  have hroundTrips := h flatHash { maxHops := 1 } [linePlan { maxHops := 1 }] _ _ _ (by decide)
    (by decide) (List.nodup_singleton _) hwrites.isPlanned hencode
  have hstorable := hroundTrips.isStorable hencode _ List.mem_cons_self
  have hhops : ∀ c ∈ (linePlan { maxHops := 1 }).candidates, c.path.hops.length ≤ 1 := by
    intro c hc
    have hle := (hstorable.candidates c hc).path.hops_le
    rwa [CandidatePath.structural, List.length_map] at hle
  revert hhops
  decide +kernel

end PathPlanner
