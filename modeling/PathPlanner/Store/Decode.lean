import PathPlanner.Store.Format

/-!
# Reading the plan store

The reader checks the header, the size and the digest of an image before it reads the payload, and
every field of the payload as it reads it. A record is refused when it does not fit the records
before it, or when its semantic digest is not the one of the plan it gives.

## Main definitions

* `readStoreHeader`, `readStoredCandidate`, `readStoredRecord`, `readStorePayload`: the readers
* `decodePlanStore`: the store reader
* `IsReadableRecord`: the records that are accepted, in view of the records before them

## Main results

* `decodeImage_eq_ok_iff`: **exactly the images of readable records are accepted**, as these records
* `decodeImage_ne_fault`: nothing outside the image is accessed
-/

namespace PathPlanner

open Decoder

/-! ## Texts -/

/-- A corrupt image. -/
def persistenceCorrupt (detail : String) : StoreFailure := ⟨.persistenceCorrupt, detail⟩

/-- The texts of the field readers of the store. -/
def storeReasons : FieldReasons StoreFailure where
  truncatedId name := persistenceCorrupt (name ++ " is truncated")
  nilId name := persistenceCorrupt (name ++ " is nil")
  missing name := persistenceCorrupt (name ++ " is truncated")
  outOfRange name := persistenceCorrupt (name ++ " is out of range")
  unknown name value :=
    persistenceCorrupt (name ++ " has an unknown enumeration value " ++ value.repr)

/-- The texts of `ReadPath`. -/
def storePathReasons : PathReasons StoreFailure where
  version := persistenceCorrupt "path encoding version is unsupported"
  hopCount := persistenceCorrupt "path hop count exceeds the configured limit"
  sourceName := "hop source node"
  targetName := "hop destination node"
  staticCost := persistenceCorrupt "hop static cost is truncated"
  wellFormed := persistenceCorrupt "decoded path is not well formed"
  simple := persistenceCorrupt "decoded path is not simple"

/-- The texts of `ReadCost`. -/
def storeCostReasons : CostReasons StoreFailure where
  truncated := persistenceCorrupt "path cost is truncated"
  hops := persistenceCorrupt "path cost hop count is out of range"
  overflow := persistenceCorrupt "path cost does not equal the sum of its components"
  sum := persistenceCorrupt "path cost does not equal the sum of its components"
  counts := persistenceCorrupt "path cost penalty counts exceed the hop count"

/-! ## Readers -/

variable (sha : List UInt8 → Sha256Digest) (limits : ResourceLimits)

/-- The header fields that the rest of the reader uses. -/
structure StoreHeader where
  recordCount : ℕ
  payloadLength : ℕ

/-- The header checks of `DecodePlanStore`. -/
def readStoreHeader : Decoder ByteReader StoreFailure StoreHeader := do
  let magic ← ByteReader.fixedBytes 8 (persistenceCorrupt "store magic is truncated")
  ensure (magic = storeMagic) (persistenceCorrupt "store magic mismatch")
  let truncated := persistenceCorrupt "store header is truncated"
  let formatVersion ← ByteReader.uint 4 truncated
  let ruleVersion ← ByteReader.uint 4 truncated
  let encodingVersion ← ByteReader.uint 4 truncated
  let recordCount ← ByteReader.uint 8 truncated
  let payloadLength ← ByteReader.uint 8 truncated
  ensure (formatVersion = persistedFormatVersion)
    ⟨.persistenceVersionUnsupported, "unsupported persisted format version"⟩
  ensure (ruleVersion = planningRuleVersion ∧ encodingVersion = pathEncodingVersion)
    ⟨.persistenceVersionUnsupported,
      "stored planning-rule or path-encoding version is unsupported"⟩
  ensure (recordCount ≤ limits.maxPersistedPlans.toNat)
    ⟨.persistenceLimitExceeded, "stored record count exceeds the configured ceiling"⟩
  pure { recordCount, payloadLength }

/-- The candidate loop of `DecodePlanStore`, after the candidates before. -/
def readStoredCandidate (evidence : EvidenceVector) (before : List StoredCandidate) :
    Decoder ByteReader StoreFailure StoredCandidate := do
  let path ← readPath storeReasons storePathReasons limits
  let cost ← readCost storeCostReasons
  let unexpected := persistenceCorrupt "candidate rank is not the expected sequence"
  let rank : CandidateRank ← ByteReader.bounded 4 unexpected unexpected
  ensure (rank.value = before.length + 1) unexpected
  ensure (cost.hops.value = path.hops.length)
    ⟨.persistenceImpossibleValue, "candidate cost hop count does not match the encoded path"⟩
  ensure (∀ hop ∈ path.hops, hop.structuralGeneration.value ≤ evidence.generations.topology.value)
    ⟨.persistenceImpossibleValue,
      "candidate hop structural generation exceeds the stored topology generation"⟩
  ensure (path.id sha ∉ before.map (·.1.id sha))
    ⟨.persistenceDuplicateCandidate, "duplicate candidate identity in a record"⟩
  pure (path, cost, rank)

/-- The record loop of `DecodePlanStore`, after the records before. -/
def readStoredRecord (before : List StoredPlanRecord) :
    Decoder ByteReader StoreFailure StoredPlanRecord := do
  let request ← storeReasons.id "request identity"
  let plan ← storeReasons.id "plan identity"
  let generation ← storeReasons.strong "planning generation"
  let publishSequence ← storeReasons.strong "publish sequence"
  let status ← storeReasons.enumeration "plan status" PlanStatus
  let constraintSet ← storeReasons.id "constraint set identity"
  let constraintGeneration ← storeReasons.strong "constraint generation"
  let policyGeneration ← storeReasons.strong "policy generation"
  let source ← storeReasons.id "source node"
  let destination ← storeReasons.id "destination node"
  let layer ← storeReasons.enumeration "plan layer" PathLayer
  let diagnosticMode ← ByteReader.bool (persistenceCorrupt "diagnostic-mode flag is truncated")
  let evidence ← storeReasons.evidence
  let semanticDigest ← ByteReader.digest (persistenceCorrupt "semantic digest is truncated")
  let exceeded : StoreFailure :=
    ⟨.persistenceLimitExceeded, "candidate count exceeds the configured ceiling"⟩
  let rows ← ByteReader.counted limits.maxCandidatesPerRequest.toNat exceeded exceeded
    (readStoredCandidate sha limits evidence)
  let record : StoredPlanRecord :=
    { request, plan, generation, publishSequence, status, constraintSet, constraintGeneration,
      policyGeneration, source, destination, layer, diagnosticMode, evidence, semanticDigest,
      candidates := rows.map (·.1)
      costs := rows.map (·.2.1)
      ranks := rows.map (·.2.2) }
  ensure (record.costs.IsChain fun a b : PathCost => a.total ≤ b.total)
    (persistenceCorrupt "candidate costs are not non-decreasing")
  ensure (plan ∉ before.map (·.plan))
    ⟨.persistenceDuplicatePlan, "duplicate plan identity in the store"⟩
  -- a record whose digest does not match its content is refused even when the transport digest was
  -- intact
  ensure ((fromStoredRecord sha record).computeSemanticDigest sha = semanticDigest)
    ⟨.persistenceDigestMismatch, "record semantic digest does not match its content"⟩
  pure record

/-- The payload of `DecodePlanStore`: the publish sequence and the records. -/
def readStorePayload (recordCount : ℕ) :
    Decoder ByteReader StoreFailure (PlanPublishSequence × List StoredPlanRecord) := do
  let disagrees := persistenceCorrupt "store payload header disagrees with the store header"
  let publishSequence ← ByteReader.quantity 8 disagrees
  let storedCount ← ByteReader.varU64 disagrees
  ensure (storedCount = recordCount) disagrees
  let records ← collect (readStoredRecord sha limits) recordCount []
  pure (publishSequence, records)

/-- The records that `DecodePlanStore` puts out. -/
def decodeImage (image : List UInt8) : Except (Stop StoreFailure) (List StoredPlanRecord) := do
  let refused (failure : StoreFailure) : Stop StoreFailure := .refused failure
  if image.length < storeHeaderBytes + storeDigestBytes then
    throw (refused (persistenceCorrupt "store image is shorter than its header"))
  let headerBytes ← subspan image 0 storeHeaderBytes
  let (header, _) ← (readStoreHeader limits).run (.new headerBytes)
  -- the sum wraps around in 64 bits
  let expectedSize := (storeHeaderBytes + storeDigestBytes + header.payloadLength) % 2 ^ 64
  if image.length < expectedSize then
    throw (refused (persistenceCorrupt "store image is truncated"))
  if image.length > expectedSize then
    throw (refused ⟨.persistenceTrailingBytes, "store image carries trailing bytes"⟩)
  let payload ← subspan image (storeHeaderBytes + storeDigestBytes) header.payloadLength
  let digest ← subspan image storeHeaderBytes storeDigestBytes
  if digest ≠ (sha (headerBytes ++ payload)).bytes.toList then
    throw (refused ⟨.persistenceDigestMismatch, "store integrity digest mismatch"⟩)
  let ((_, records), reader) ←
    (readStorePayload sha limits header.recordCount).run (.new payload)
  if ¬ reader.atEnd then
    throw (refused ⟨.persistenceTrailingBytes, "store payload carries trailing bytes"⟩)
  pure records

/-- `DecodePlanStore`, with `sha` for `Sha256::Hash`: none when it accesses anything outside the
image. -/
def decodePlanStore (image : List UInt8) (out : List StoredPlanRecord) :
    Option (StoreResult × List StoredPlanRecord) :=
  match decodeImage sha limits image with
  | .ok records => some (withOutput out (.ok records))
  | .error (.refused failure) => some (withOutput out (.error failure))
  | .error .fault => none

/-! ## What is accepted -/

/-- A candidate that is accepted after the candidates before. -/
structure StoredCandidate.IsReadable (evidence : EvidenceVector) (before : List StoredCandidate)
    (row : StoredCandidate) : Prop where
  path_isReadable : row.1.IsReadable limits.maxHops.toNat
  cost_isCoherent : row.2.1.IsCoherent
  rank_le : row.2.2.value ≤ maxCandidateRank
  rank_eq : row.2.2.value = before.length + 1
  hops_eq : row.2.1.hops.value = row.1.hops.length
  generation_le : ∀ hop ∈ row.1.hops,
    hop.structuralGeneration.value ≤ evidence.generations.topology.value
  id_new : row.1.id sha ∉ before.map (·.1.id sha)

/-- A record that is accepted after the records before. -/
structure StoredPlanRecord.IsReadable (before : List StoredPlanRecord) (record : StoredPlanRecord) :
    Prop where
  request_isValid : record.request.isValid = true
  plan_isValid : record.plan.isValid = true
  constraintSet_isValid : record.constraintSet.isValid = true
  source_isValid : record.source.isValid = true
  destination_isValid : record.destination.isValid = true
  layer_isKnown : WireEnum.IsKnown record.layer
  snapshot_isValid : record.evidence.snapshot.isValid = true
  length_le : record.candidates.length ≤ limits.maxCandidatesPerRequest.toNat
  costs_length : record.costs.length = record.candidates.length
  ranks_length : record.ranks.length = record.candidates.length
  rows_isReadable : EachAfter (StoredCandidate.IsReadable sha limits record.evidence) record.rows
  costs_isChain : record.costs.IsChain fun a b : PathCost => a.total ≤ b.total
  plan_new : record.plan ∉ before.map (·.plan)
  digest_eq : (fromStoredRecord sha record).computeSemanticDigest sha = record.semanticDigest

/-- The record that the rows of a record determine. -/
def StoredPlanRecord.rebuilt (record : StoredPlanRecord) : StoredPlanRecord :=
  { record with
    candidates := record.rows.map (·.1)
    costs := record.rows.map (·.2.1)
    ranks := record.rows.map (·.2.2) }

theorem StoredPlanRecord.rebuilt_eq_self_iff {record : StoredPlanRecord} :
    record.rebuilt = record ↔ record.costs.length = record.candidates.length ∧
      record.ranks.length = record.candidates.length := by
  constructor
  · intro h
    have hcandidates := congrArg (·.candidates.length) h
    have hcosts := congrArg (·.costs.length) h
    have hranks := congrArg (·.ranks.length) h
    simp only [rebuilt, List.length_map] at hcandidates hcosts hranks
    exact ⟨hcosts.symm.trans hcandidates, hranks.symm.trans hcandidates⟩
  · rintro ⟨hcosts, hranks⟩
    have hcandidates : record.rows.map (·.1) = record.candidates := by
      apply List.ext_getElem
      · simp [rows, hcosts]
      · intro i hi hi'
        simp [rows]
    have hcosts' : record.rows.map (·.2.1) = record.costs := by
      apply List.ext_getElem
      · simp [rows, hcosts]
      · intro i hi hi'
        simp [rows]
    have hranks' : record.rows.map (·.2.2) = record.ranks := by
      apply List.ext_getElem
      · simp [rows, hcosts, hranks]
      · intro i hi hi'
        simp [rows, List.getD_eq_getElem?_getD, List.getElem?_eq_getElem hi']
    unfold rebuilt
    rw [hcandidates, hcosts', hranks']

/-- The rows of a record that was put together from rows. -/
theorem StoredPlanRecord.rows_eq {record : StoredPlanRecord} {rows : List StoredCandidate}
    (hcandidates : record.candidates = rows.map (·.1)) (hcosts : record.costs = rows.map (·.2.1))
    (hranks : record.ranks = rows.map (·.2.2)) : record.rows = rows := by
  unfold StoredPlanRecord.rows
  rw [hcandidates, hcosts, hranks]
  apply List.ext_getElem
  · simp
  · intro i hi hi'
    simp [List.getD_eq_getElem?_getD, List.getElem?_eq_getElem hi']

/-! ## What is read back -/

theorem readStoredCandidate_spells (evidence : EvidenceVector) (before : List StoredCandidate) :
    Spells (readStoredCandidate sha limits evidence before)
      (StoredCandidate.IsReadable sha limits evidence before) storedCandidateWord := by
  refine .congr (.start <|
    (readPath_spells storeReasons storePathReasons limits).field (ρ := StoredCandidate) (·.1)
      fun path _ =>
    (readCost_spells storeCostReasons).field (ρ := StoredCandidate) (·.2.1) fun cost _ =>
    (ByteReader.bounded_spells (by norm_num) _ _).field (ρ := StoredCandidate) (·.2.2)
      fun rank _ =>
    .ensure (fun row : StoredCandidate => row.2.2.value = before.length + 1) ?_ fun _ =>
    .ensure (fun row : StoredCandidate => row.2.1.hops.value = row.1.hops.length) ?_ fun _ =>
    .ensure (fun row : StoredCandidate => ∀ hop ∈ row.1.hops,
      hop.structuralGeneration.value ≤ evidence.generations.topology.value) ?_ fun _ =>
    .ensure (fun row : StoredCandidate => row.1.id sha ∉ before.map (·.1.id sha)) ?_ fun _ =>
    .done (Q := fun _ => True) fun row => ?_) (fun row => ?_) fun row _ => ?_
  iterate 4
    · rintro row ⟨⟨⟨-, rfl⟩, rfl⟩, rfl⟩
      exact Iff.rfl
  · constructor
    · rintro ⟨⟨⟨⟨-, rfl⟩, rfl⟩, rfl⟩, -⟩
      rfl
    · rintro rfl
      exact ⟨⟨⟨⟨trivial, rfl⟩, rfl⟩, rfl⟩, trivial⟩
  · constructor
    · exact fun h => ⟨h.path_isReadable, h.cost_isCoherent, h.rank_le, h.rank_eq, h.hops_eq,
        h.generation_le, h.id_new, trivial⟩
    · rintro ⟨h₁, h₂, h₃, h₄, h₅, h₆, h₇, -⟩
      exact ⟨h₁, h₂, h₃, h₄, h₅, h₆, h₇⟩
  · simp only [storedCandidateWord, List.append_assoc, List.append_nil]

theorem readStoredRecord_spells (before : List StoredPlanRecord) :
    Spells (readStoredRecord sha limits before)
      (StoredPlanRecord.IsReadable sha limits before) StoredPlanRecord.word := by
  refine .congr (.start <|
    (storeReasons.id_spells "request identity").field StoredPlanRecord.request fun request _ =>
    (storeReasons.id_spells "plan identity").field StoredPlanRecord.plan fun plan _ =>
    (storeReasons.strong_spells "planning generation").field StoredPlanRecord.generation
      fun generation _ =>
    (storeReasons.strong_spells "publish sequence").field StoredPlanRecord.publishSequence
      fun publishSequence _ =>
    (storeReasons.enumeration_spells "plan status" PlanStatus).field StoredPlanRecord.status
      fun status _ =>
    (storeReasons.id_spells "constraint set identity").field StoredPlanRecord.constraintSet
      fun constraintSet _ =>
    (storeReasons.strong_spells "constraint generation").field
      StoredPlanRecord.constraintGeneration fun constraintGeneration _ =>
    (storeReasons.strong_spells "policy generation").field StoredPlanRecord.policyGeneration
      fun policyGeneration _ =>
    (storeReasons.id_spells "source node").field StoredPlanRecord.source fun source _ =>
    (storeReasons.id_spells "destination node").field StoredPlanRecord.destination
      fun destination _ =>
    (storeReasons.enumeration_spells "plan layer" PathLayer).field StoredPlanRecord.layer
      fun layer _ =>
    (ByteReader.bool_spells _).field StoredPlanRecord.diagnosticMode fun diagnosticMode _ =>
    storeReasons.evidence_spells.field StoredPlanRecord.evidence fun evidence _ =>
    (ByteReader.digest_spells _).field StoredPlanRecord.semanticDigest fun semanticDigest _ =>
    .dependentField StoredPlanRecord.rows (C := fun record =>
        record.rows.length ≤ limits.maxCandidatesPerRequest.toNat ∧
          EachAfter (StoredCandidate.IsReadable sha limits record.evidence) record.rows) ?_
      (ByteReader.counted_spells (readStoredCandidate_spells sha limits evidence)
        (ByteReader.ceiling_lt _) _ _) fun rows _ =>
    .ensure (fun record => record.rebuilt.costs.IsChain fun a b : PathCost => a.total ≤ b.total) ?_
      fun _ =>
    .ensure (fun record : StoredPlanRecord => record.plan ∉ before.map (·.plan)) ?_ fun _ =>
    .ensure (fun record : StoredPlanRecord =>
      (fromStoredRecord sha record.rebuilt).computeSemanticDigest sha = record.semanticDigest) ?_
      fun _ =>
    .done (Q := fun record : StoredPlanRecord => record.rebuilt = record) fun record => ?_)
    (fun record => ?_) fun record _ => ?_
  · rintro record ⟨⟨-, rfl⟩, -⟩
    exact Iff.rfl
  iterate 3
    · rintro record ⟨⟨⟨⟨⟨⟨⟨⟨⟨⟨⟨⟨⟨⟨⟨-, rfl⟩, rfl⟩, rfl⟩, rfl⟩, rfl⟩, rfl⟩, rfl⟩, rfl⟩, rfl⟩, rfl⟩, rfl⟩,
        rfl⟩, rfl⟩, rfl⟩, rfl⟩
      exact Iff.rfl
  · constructor
    · rintro ⟨⟨⟨⟨⟨⟨⟨⟨⟨⟨⟨⟨⟨⟨⟨⟨-, rfl⟩, rfl⟩, rfl⟩, rfl⟩, rfl⟩, rfl⟩, rfl⟩, rfl⟩, rfl⟩, rfl⟩, rfl⟩,
        rfl⟩, rfl⟩, rfl⟩, rfl⟩, h⟩
      exact h.symm
    · intro h
      have hrows : record.rows = rows :=
        StoredPlanRecord.rows_eq (by rw [h]) (by rw [h]) (by rw [h])
      have hrebuilt : record.rebuilt = record :=
        StoredPlanRecord.rebuilt_eq_self_iff.mpr ⟨by simp [h], by simp [h]⟩
      refine ⟨⟨?_, hrows⟩, hrebuilt⟩
      subst h
      simp only [and_self]
  · rw [StoredPlanRecord.rebuilt_eq_self_iff]
    constructor
    · intro h
      have hrebuilt := StoredPlanRecord.rebuilt_eq_self_iff.mpr ⟨h.costs_length, h.ranks_length⟩
      have hrows : record.rows.length = record.candidates.length := by
        simp [StoredPlanRecord.rows, h.costs_length]
      refine ⟨h.request_isValid, h.plan_isValid, trivial, trivial, PlanStatus.isKnown _,
        h.constraintSet_isValid, trivial, trivial, h.source_isValid, h.destination_isValid,
        h.layer_isKnown, trivial, h.snapshot_isValid, trivial,
        ⟨hrows.trans_le h.length_le, h.rows_isReadable⟩, ?_, h.plan_new, ?_, h.costs_length,
        h.ranks_length⟩
      · rw [hrebuilt]
        exact h.costs_isChain
      · rw [hrebuilt]
        exact h.digest_eq
    · rintro ⟨h₁, h₂, -, -, -, h₃, -, -, h₄, h₅, h₆, -, h₇, -, ⟨h₈, h₉⟩, hchain, hnew, hdigest,
        hcosts, hranks⟩
      have hrebuilt := StoredPlanRecord.rebuilt_eq_self_iff.mpr ⟨hcosts, hranks⟩
      have hrows : record.rows.length = record.candidates.length := by
        simp [StoredPlanRecord.rows, hcosts]
      rw [hrebuilt] at hchain hdigest
      exact ⟨h₁, h₂, h₃, h₄, h₅, h₆, h₇, hrows.symm.trans_le h₈, hcosts, hranks, h₉, hchain, hnew,
        hdigest⟩
  · simp only [StoredPlanRecord.word, List.append_assoc, List.append_nil]

theorem length_storeMagic : storeMagic.length = 8 := by decide +kernel

theorem readStoreHeader_spells : Spells (readStoreHeader limits)
    (fun header => header.recordCount ≤ limits.maxPersistedPlans.toNat ∧
      header.payloadLength < 2 ^ 64)
    (fun header => storeHeader header.recordCount header.payloadLength) := by
  refine .congr (.start <|
    .literal storeMagic (ByteReader.fixedBytes_spells 8 _) length_storeMagic (fun _ => Iff.rfl) _ <|
    .value persistedFormatVersion (ByteReader.uint_spells 4 _) (by decide) fun formatVersion _ =>
    .value planningRuleVersion (ByteReader.uint_spells 4 _) (by decide) fun ruleVersion _ =>
    .value pathEncodingVersion (ByteReader.uint_spells 4 _) (by decide) fun encodingVersion _ =>
    (ByteReader.uint_spells 8 _).field StoreHeader.recordCount fun recordCount _ =>
    (ByteReader.uint_spells 8 _).field StoreHeader.payloadLength fun payloadLength _ =>
    .ensured (fun header h => h.1.1.1.1.2) fun hformat =>
    .ensured (fun header h => ⟨h.1.1.1.2, h.1.1.2⟩) fun hversions =>
    .ensure (fun header : StoreHeader => header.recordCount ≤ limits.maxPersistedPlans.toNat)
      (fun header h => by rw [h.1.2]) fun _ =>
    .done (Q := fun _ => True) fun header => ?_) (fun header => ?_) fun header _ => ?_
  · cases header
    simp only [StoreHeader.mk.injEq, hformat, hversions, true_and, and_true]
  · have hsmall := ByteReader.ceiling_lt limits.maxPersistedPlans
    constructor
    · rintro ⟨hcount, hlength⟩
      exact ⟨by omega, hlength, hcount, trivial⟩
    · rintro ⟨-, hlength, hcount, -⟩
      exact ⟨hcount, hlength⟩
  · simp only [storeHeader, id, List.append_assoc, List.append_nil]

theorem readStorePayload_spells {recordCount : ℕ} (hcount : recordCount < 2 ^ 64) :
    Spells (readStorePayload sha limits recordCount)
      (fun content => content.2.length = recordCount ∧
        EachAfter (StoredPlanRecord.IsReadable sha limits) content.2)
      (fun content => storePayload content.1 content.2) := by
  have hrecords := Spells.collect (readStoredRecord_spells sha limits) recordCount []
  simp only [List.nil_append, exists_eq_left', List.length_nil, List.drop_zero] at hrecords
  refine .congr (.start <|
    (ByteReader.quantity_spells (by norm_num) _).field
      (ρ := PlanPublishSequence × List StoredPlanRecord) (·.1) fun publishSequence _ =>
    .literal recordCount (ByteReader.varU64_spells _) hcount (fun _ => Iff.rfl) _ <|
    hrecords.field (ρ := PlanPublishSequence × List StoredPlanRecord) (·.2) fun records _ =>
    .done (Q := fun _ => True) fun content => ?_) (fun content => ?_) fun content h => ?_
  · constructor
    · rintro ⟨⟨⟨-, rfl⟩, rfl⟩, -⟩
      rfl
    · rintro rfl
      exact ⟨⟨⟨trivial, rfl⟩, rfl⟩, trivial⟩
  · simp only [true_and, and_true]
  · rw [List.append_nil, ← h.2.1.1]
    rfl

/-! ## Images -/

/-- The records of an accepted payload. -/
def AreReadable (records : List StoredPlanRecord) : Prop :=
  records.length ≤ limits.maxPersistedPlans.toNat ∧
    EachAfter (StoredPlanRecord.IsReadable sha limits) records

/-- **What can happen**: an image is refused for a reason, or it is the image of the readable
records that are put out. -/
theorem decodeImage_cases (image : List UInt8) :
    (∃ failure, decodeImage sha limits image = .error (.refused failure)) ∨
      ∃ sequence records, decodeImage sha limits image = .ok records ∧
        AreReadable sha limits records ∧ image = storeImage sha sequence records ∧
        image.length < 2 ^ 64 := by
  unfold decodeImage
  by_cases hshort : image.length < storeHeaderBytes + storeDigestBytes
  · rw [if_pos hshort]
    exact Or.inl ⟨_, rfl⟩
  simp only [if_neg hshort, subspan_eq_ok (show 0 + storeHeaderBytes ≤ image.length by omega),
    ok_bind, List.drop_zero]
  -- the header
  cases hheader : (readStoreHeader limits).run (.new (image.take storeHeaderBytes)) with
  | error stop =>
    cases stop with
    | fault => exact absurd hheader ((readStoreHeader_spells limits).safe _)
    | refused failure => exact Or.inl ⟨failure, rfl⟩
  | ok header =>
    obtain ⟨header, reader⟩ := header
    simp only [ok_bind]
    obtain ⟨⟨hcount, hlength⟩, hstarts, -⟩ :=
      ((readStoreHeader_spells limits).run_iff _ _ _).mp hheader
    have htake : storeHeader header.recordCount header.payloadLength =
        image.take storeHeaderBytes := by
      refine hstarts.eq_of_length ?_
      rw [length_storeHeader, ByteReader.rest_new, List.length_take]
      omega
    -- the size
    by_cases hsmall : image.length <
        (storeHeaderBytes + storeDigestBytes + header.payloadLength) % 2 ^ 64
    · rw [if_pos hsmall]
      exact Or.inl ⟨_, rfl⟩
    rw [if_neg hsmall]
    by_cases hlarge : image.length >
        (storeHeaderBytes + storeDigestBytes + header.payloadLength) % 2 ^ 64
    · rw [if_pos hlarge]
      exact Or.inl ⟨_, rfl⟩
    have hsize : image.length = storeHeaderBytes + storeDigestBytes + header.payloadLength := by
      have hheaderBytes : storeHeaderBytes = 36 := rfl
      have hdigestBytes : storeDigestBytes = 32 := rfl
      omega
    simp only [if_neg hlarge, subspan_eq_ok hsize.ge, ok_bind,
      subspan_eq_ok (show storeHeaderBytes + storeDigestBytes ≤ image.length by omega)]
    -- the digest
    by_cases hdigest : (image.drop storeHeaderBytes).take storeDigestBytes ≠
        (sha (image.take storeHeaderBytes ++ (image.drop (storeHeaderBytes +
          storeDigestBytes)).take header.payloadLength)).bytes.toList
    · rw [if_pos hdigest]
      exact Or.inl ⟨_, rfl⟩
    rw [if_neg hdigest]
    -- the payload
    have hspells := readStorePayload_spells sha limits
      (show header.recordCount < 2 ^ 64 from hcount.trans_lt (ByteReader.ceiling_lt _))
    cases hpayload : (readStorePayload sha limits header.recordCount).run
      (.new ((image.drop (storeHeaderBytes + storeDigestBytes)).take header.payloadLength)) with
    | error stop =>
      cases stop with
      | fault => exact absurd hpayload (hspells.safe _)
      | refused failure => exact Or.inl ⟨failure, rfl⟩
    | ok content =>
      obtain ⟨⟨sequence, records⟩, reader⟩ := content
      by_cases hend : reader.atEnd = true
      · obtain ⟨⟨hrecords, heach⟩, hword⟩ := hspells.run_atEnd_iff.mp
          ⟨reader, hpayload, ByteReader.atEnd_iff.mp hend⟩
        rw [ByteReader.rest_new] at hword
        refine Or.inr ⟨sequence, records, ?_, ⟨hrecords.trans_le hcount, heach⟩, ?_, ?_⟩
        · simp only [ok_bind, hend, not_true_eq_false, if_false]
          rfl
        · have hpayloadLength : (storePayload sequence records).length = header.payloadLength := by
            rw [← hword, List.length_take, List.length_drop]
            omega
          have hall : image = image.take storeHeaderBytes ++
              (image.drop storeHeaderBytes).take storeDigestBytes ++
              image.drop (storeHeaderBytes + storeDigestBytes) := by
            rw [List.append_assoc, ← List.drop_drop, List.take_append_drop, List.take_append_drop]
          have hrest : image.drop (storeHeaderBytes + storeDigestBytes) =
              storePayload sequence records := by
            rw [← hword, List.take_of_length_le]
            rw [List.length_drop]
            omega
          rw [not_not.mp hdigest, hword, hrest, ← htake] at hall
          rw [hall, storeImage, hrecords, hpayloadLength]
          rfl
        · omega
      · simp only [ok_bind, hend]
        exact Or.inl ⟨_, rfl⟩

/-- The parts of an image. -/
theorem take_drop_storeImage (sequence : PlanPublishSequence) (records : List StoredPlanRecord) :
    (storeImage sha sequence records).take storeHeaderBytes =
        storeHeader records.length (storePayload sequence records).length ∧
      ((storeImage sha sequence records).drop storeHeaderBytes).take storeDigestBytes =
        (sha (storeHeader records.length (storePayload sequence records).length ++
          storePayload sequence records)).word ∧
      (storeImage sha sequence records).drop (storeHeaderBytes + storeDigestBytes) =
        storePayload sequence records := by
  have hheader := length_storeHeader records.length (storePayload sequence records).length
  have hdigest : (sha (storeHeader records.length (storePayload sequence records).length ++
      storePayload sequence records)).word.length = storeDigestBytes :=
    Sha256Digest.length_word _
  rw [← List.drop_drop]
  unfold storeImage
  simp only [List.append_assoc]
  rw [List.take_left' hheader, List.drop_left' hheader, List.take_left' hdigest,
    List.drop_left' hdigest]
  exact ⟨rfl, rfl, rfl⟩

/-- The image of readable records is accepted. -/
theorem decodeImage_storeImage {sequence : PlanPublishSequence} {records : List StoredPlanRecord}
    (h : AreReadable sha limits records)
    (hlength : (storeImage sha sequence records).length < 2 ^ 64) :
    decodeImage sha limits (storeImage sha sequence records) = .ok records := by
  obtain ⟨hheaderBytes, hdigestBytes, hpayloadBytes⟩ := take_drop_storeImage sha sequence records
  have hsize := length_storeImage sha sequence records
  have hcount : records.length < 2 ^ 64 := h.1.trans_lt (ByteReader.ceiling_lt _)
  obtain ⟨reader, hheader, -⟩ := (readStoreHeader_spells limits).run_atEnd_iff
    (s := .new (storeHeader records.length (storePayload sequence records).length))
    (a := ⟨records.length, (storePayload sequence records).length⟩) |>.mpr
    ⟨⟨h.1, by simp only; omega⟩, rfl⟩
  obtain ⟨reader', hpayload, hend⟩ := (readStorePayload_spells sha limits hcount).run_atEnd_iff
    (s := .new (storePayload sequence records)) (a := (sequence, records)) |>.mpr
    ⟨⟨rfl, h.2⟩, rfl⟩
  have htake : (storePayload sequence records).take (storePayload sequence records).length =
      storePayload sequence records := List.take_length
  unfold decodeImage
  rw [if_neg (by omega)]
  simp only [subspan_eq_ok (show 0 + storeHeaderBytes ≤ (storeImage sha sequence records).length by
    omega), ok_bind, List.drop_zero, hheaderBytes, hheader]
  rw [if_neg (by omega), if_neg (by omega)]
  simp only [subspan_eq_ok hsize.ge, subspan_eq_ok (show storeHeaderBytes + storeDigestBytes ≤
    (storeImage sha sequence records).length by omega), ok_bind, hpayloadBytes, hdigestBytes, htake]
  simp only [Sha256Digest.word, ne_eq, not_true_eq_false, if_false, hpayload, ok_bind,
    ByteReader.atEnd_iff.mpr hend]
  rfl

/-- **Exactly the images of readable records** are accepted, as these records. -/
theorem decodeImage_eq_ok_iff {image : List UInt8} {records : List StoredPlanRecord} :
    decodeImage sha limits image = .ok records ↔ AreReadable sha limits records ∧
      ∃ sequence, image = storeImage sha sequence records ∧ image.length < 2 ^ 64 := by
  constructor
  · intro h
    rcases decodeImage_cases sha limits image with ⟨failure, hfailure⟩ | ⟨sequence, _, hok, hall⟩
    · rw [hfailure] at h
      cases h
    · obtain rfl := Except.ok.inj (hok.symm.trans h)
      exact ⟨hall.1, sequence, hall.2⟩
  · rintro ⟨hreadable, sequence, rfl, hlength⟩
    exact decodeImage_storeImage sha limits hreadable hlength

/-- Nothing outside the image is accessed. -/
theorem decodeImage_ne_fault (image : List UInt8) :
    decodeImage sha limits image ≠ .error .fault := by
  intro h
  rcases decodeImage_cases sha limits image with ⟨failure, hfailure⟩ | ⟨_, _, hok, -⟩
  · rw [hfailure] at h
    cases h
  · rw [hok] at h
    cases h

end PathPlanner
