import PathPlanner.Codec.Paths

/-!
# The plan store format

A store image is a header, a digest over the header and the payload, and the payload: the publish
sequence and the stored records. The writer checks identities and counts, and leaves its output
alone when it fails.

## Main definitions

* `StoreOptions`, `StoreFailure`, `StoreResult`: what the store is given and what it reports
* `StoredPlanRecord.word`, `storePayload`, `storeHeader`, `storeImage`: the format
* `encodePlanStore`: the writer

## Main results

* `encodeImage_eq_ok_iff`: the writer produces the image of the records, exactly when it finds
  nothing wrong with them and the payload fits its ceiling
-/

namespace PathPlanner

/-! ## Results -/

/-- `kPersistedFormatVersion`. -/
def persistedFormatVersion : ℕ := 1

/-- `kStoreMagic`. -/
def storeMagic : List UInt8 := "PPLNPLAN".toUTF8.toList

/-- `kStoreHeaderBytes`. -/
def storeHeaderBytes : ℕ := 36

/-- `kStoreDigestBytes`. -/
def storeDigestBytes : ℕ := sha256Bytes

/-- `StoreOptions`. -/
structure StoreOptions where
  limits : ResourceLimits
  publishSequence : PlanPublishSequence := default

/-- `Failure`: a code and a text. -/
structure StoreFailure where
  code : DiagnosticCode
  detail : String
  deriving DecidableEq

/-- `StoreResult`. -/
structure StoreResult where
  ok : Bool := false
  code : DiagnosticCode := .persistenceCorrupt
  detail : String := ""
  deriving DecidableEq

/-- A function with an output parameter: on a failure it reports the failure and leaves the output
as it was. -/
def withOutput {α : Type} (out : α) : Except StoreFailure α → StoreResult × α
  | .ok value => ({ ok := true }, value)
  | .error failure => ({ ok := false, code := failure.code, detail := failure.detail }, out)

/-! ## The format -/

/-- A stored candidate: its path, its cost and its rank. -/
abbrev StoredCandidate := CandidatePath × PathCost × CandidateRank

/-- The candidates of a record, with the rank of their position where the record holds none. -/
def StoredPlanRecord.rows (record : StoredPlanRecord) : List StoredCandidate :=
  (record.candidates.zip record.costs).mapIdx fun index (path, cost) =>
    (path, cost, record.ranks.getD index (.ofNat (index + 1)))

/-- The word of a stored candidate. -/
def storedCandidateWord (row : StoredCandidate) : List UInt8 :=
  row.1.word ++ row.2.1.word ++ littleEndian 4 row.2.2.value

/-- The word of a record. -/
def StoredPlanRecord.word (record : StoredPlanRecord) : List UInt8 :=
  record.request.word ++ record.plan.word ++ littleEndian 8 record.generation.value ++
    littleEndian 8 record.publishSequence.value ++ WireEnum.word record.status ++
    record.constraintSet.word ++ littleEndian 8 record.constraintGeneration.value ++
    littleEndian 8 record.policyGeneration.value ++ record.source.word ++
    record.destination.word ++ WireEnum.word record.layer ++ boolWord record.diagnosticMode ++
    record.evidence.word ++ record.semanticDigest.word ++ listWord storedCandidateWord record.rows

/-- The payload of an image. -/
def storePayload (sequence : PlanPublishSequence) (records : List StoredPlanRecord) : List UInt8 :=
  littleEndian 8 sequence.value ++ listWord StoredPlanRecord.word records

/-- The header of an image. -/
def storeHeader (count length : ℕ) : List UInt8 :=
  storeMagic ++ littleEndian 4 persistedFormatVersion ++ littleEndian 4 planningRuleVersion ++
    littleEndian 4 pathEncodingVersion ++ littleEndian 8 count ++ littleEndian 8 length

/-- The image of records. -/
def storeImage (sha : List UInt8 → Sha256Digest) (sequence : PlanPublishSequence)
    (records : List StoredPlanRecord) : List UInt8 :=
  let payload := storePayload sequence records
  let header := storeHeader records.length payload.length
  header ++ (sha (header ++ payload)).word ++ payload

@[simp] theorem length_storeHeader (count length : ℕ) :
    (storeHeader count length).length = storeHeaderBytes := by
  simp [storeHeader, show storeMagic.length = 8 by decide +kernel, storeHeaderBytes]

theorem length_storeImage (sha : List UInt8 → Sha256Digest) (sequence : PlanPublishSequence)
    (records : List StoredPlanRecord) : (storeImage sha sequence records).length =
      storeHeaderBytes + storeDigestBytes + (storePayload sequence records).length := by
  simp only [storeImage, storeDigestBytes, List.length_append, length_storeHeader,
    Sha256Digest.length_word]

/-! ## The writer -/

/-- The checks of `EncodePlanStore` on a record. -/
def storedRecordError (limits : ResourceLimits) (record : StoredPlanRecord) : Option StoreFailure :=
  if !record.plan.isValid || !record.request.isValid then
    some ⟨.malformedIdentifier, "record carries a nil identity"⟩
  else if record.candidates.length ≠ record.costs.length then
    some ⟨.persistenceCorrupt, "candidate and cost counts disagree"⟩
  else if exceeds record.candidates.length limits.maxCandidatesPerRequest then
    some ⟨.persistenceLimitExceeded, "candidate count exceeds the configured ceiling"⟩
  else none

/-- The loop of `EncodePlanStore` over the candidates of a record. -/
def StoredPlanRecord.encodeRows (record : StoredPlanRecord) (writer : ByteWriter) : ByteWriter :=
  record.rows.foldl (fun writer row => (row.2.1.encode (row.1.encode writer)).u32 row.2.2.value)
    (writer.varU64 record.candidates.length)

/-- The loop of `EncodePlanStore` over the records. -/
def StoredPlanRecord.encode (writer : ByteWriter) (record : StoredPlanRecord) : ByteWriter :=
  let writer := (writer.id record.request).id record.plan
  let writer := (writer.u64 record.generation.value).u64 record.publishSequence.value
  let writer := (writer.u32 record.status.value).id record.constraintSet
  let writer := (writer.u64 record.constraintGeneration.value).u64 record.policyGeneration.value
  let writer := (writer.id record.source).id record.destination
  let writer := (writer.u32 record.layer.value).bool record.diagnosticMode
  let writer := record.evidence.generations.encode (writer.id record.evidence.snapshot)
  let writer := writer.u32 record.evidence.source.value
  let writer := writer.u64 record.evidence.publishSequence.value
  record.encodeRows (writer.fixedBytes record.semanticDigest.bytes.toList)

/-- The ceiling of the payload. The product is taken in 32 bits. -/
def storePayloadCeiling (limits : ResourceLimits) : ℕ := (limits.maxFrameBytes * 16).toNat

/-- The image that `EncodePlanStore` puts out. -/
def encodeImage (sha : List UInt8 → Sha256Digest) (records : List StoredPlanRecord)
    (options : StoreOptions) : Except StoreFailure (List UInt8) := do
  if let some code := validateLimits options.limits then
    throw ⟨code, "resource limits are incoherent"⟩
  if exceeds records.length options.limits.maxPersistedPlans then
    throw ⟨.persistenceLimitExceeded, "record count exceeds the configured ceiling"⟩
  if let some failure := records.findSome? (storedRecordError options.limits) then
    throw failure
  let payload := (ByteWriter.new (storePayloadCeiling options.limits)).u64
    options.publishSequence.value
  let payload := records.foldl StoredPlanRecord.encode (payload.varU64 records.length)
  if payload.overflowed then
    throw ⟨.persistenceLimitExceeded, "store payload exceeded its ceiling"⟩
  let header := (ByteWriter.new storeHeaderBytes).fixedBytes storeMagic
  let header := ((header.u32 persistedFormatVersion).u32 planningRuleVersion).u32
    pathEncodingVersion
  let header := (header.u64 records.length).u64 payload.data.length
  if header.overflowed then
    throw ⟨.persistenceCorrupt, "store header encoding failed"⟩
  pure (header.data ++ (sha (header.data ++ payload.data)).bytes.toList ++ payload.data)

/-- `EncodePlanStore`, with `sha` for `Sha256::Hash`. -/
def encodePlanStore (sha : List UInt8 → Sha256Digest) (records : List StoredPlanRecord)
    (options : StoreOptions) (out : List UInt8) : StoreResult × List UInt8 :=
  withOutput out (encodeImage sha records options)

/-! ## What is written -/

theorem StoredPlanRecord.wrote_encode {w : ByteWriter} {ceiling : ℕ} {word : List UInt8}
    (h : w.Wrote ceiling word) (record : StoredPlanRecord)
    (hcosts : record.candidates.length = record.costs.length) :
    (encode w record).Wrote ceiling (word ++ record.word) := by
  have hcount : record.candidates.length = record.rows.length := by
    simp [rows, hcosts]
  unfold encode encodeRows
  rw [hcount]
  simp only [StoredPlanRecord.word, EvidenceVector.word, ← List.append_assoc]
  refine ByteWriter.Wrote.list (fun row _ w word hw => ?_) ?_
  · simp only [storedCandidateWord, ← List.append_assoc]
    exact ((hw.path row.1).cost row.2.1).u32 row.2.2.value
  · exact ((((((((((((((((h.id record.request).id record.plan).u64 _).u64 _).enumeration
      record.status).id record.constraintSet).u64 _).u64 _).id record.source).id
      record.destination).enumeration record.layer).bool record.diagnosticMode).id
      record.evidence.snapshot).generations record.evidence.generations).enumeration
      record.evidence.source).u64 _).fixedBytes _

/-- What the writer checks. -/
structure StoredPlanRecord.IsWritable (limits : ResourceLimits) (record : StoredPlanRecord) :
    Prop where
  plan_isValid : record.plan.isValid = true
  request_isValid : record.request.isValid = true
  length_eq : record.candidates.length = record.costs.length
  length_le : record.candidates.length ≤ limits.maxCandidatesPerRequest.toNat

theorem storedRecordError_eq_none_iff {limits : ResourceLimits} {record : StoredPlanRecord} :
    storedRecordError limits record = none ↔ record.IsWritable limits := by
  unfold storedRecordError exceeds
  constructor
  · intro h
    split_ifs at h with hid hlength hcount
    simp only [Bool.not_eq_true, Bool.or_eq_false_iff, Bool.not_eq_false'] at hid
    exact ⟨hid.1, hid.2, not_not.mp hlength, by simpa using hcount⟩
  · rintro ⟨hplan, hrequest, hlength, hcount⟩
    rw [hplan, hrequest, if_neg (by simp), if_neg (not_not_intro hlength), if_neg]
    simpa using hcount

/-- With coherent limits and nothing wrong with the records, only the length of the payload decides
what the writer does. -/
theorem encodeImage_of_isWritable {sha : List UInt8 → Sha256Digest}
    {records : List StoredPlanRecord} {options : StoreOptions}
    (hlimits : validateLimits options.limits = none)
    (hcount : records.length ≤ options.limits.maxPersistedPlans.toNat)
    (hwritable : ∀ record ∈ records, record.IsWritable options.limits) :
    encodeImage sha records options =
      if storePayloadCeiling options.limits <
          (storePayload options.publishSequence records).length then
        .error ⟨.persistenceLimitExceeded, "store payload exceeded its ceiling"⟩
      else .ok (storeImage sha options.publishSequence records) := by
  have hpayload : (records.foldl StoredPlanRecord.encode
      (((ByteWriter.new (storePayloadCeiling options.limits)).u64
        options.publishSequence.value).varU64 records.length)).Wrote
      (storePayloadCeiling options.limits) (storePayload options.publishSequence records) :=
    ((ByteWriter.Wrote.new _).u64 _).list fun record hrecord w word hw =>
      StoredPlanRecord.wrote_encode hw record (hwritable record hrecord).length_eq
  have hheader (length : ℕ) :
      (((((((ByteWriter.new storeHeaderBytes).fixedBytes storeMagic).u32
        persistedFormatVersion).u32 planningRuleVersion).u32 pathEncodingVersion).u64
        records.length).u64 length).Wrote storeHeaderBytes (storeHeader records.length length) :=
    ((((((ByteWriter.Wrote.new _).fixedBytes _).u32 _).u32 _).u32 _).u64 _).u64 _
  have hcount' : exceeds records.length options.limits.maxPersistedPlans = false := by
    simpa [exceeds] using hcount
  have hfind : records.findSome? (storedRecordError options.limits) = none :=
    List.findSome?_eq_none_iff.mpr fun record hrecord =>
      storedRecordError_eq_none_iff.mpr (hwritable record hrecord)
  unfold encodeImage
  rw [hlimits, hcount', hfind]
  by_cases hover : storePayloadCeiling options.limits <
      (storePayload options.publishSequence records).length
  · have hoverflowed := hpayload.overflowed_iff.mpr hover
    simp only [hoverflowed, hover, if_true]
    rfl
  · have hoverflowed := hpayload.overflowed_eq_false_iff.mpr (not_lt.mp hover)
    have hdata := hpayload.data_eq hoverflowed
    have hwroteHeader := hheader (storePayload options.publishSequence records).length
    have hheaderOverflowed := hwroteHeader.overflowed_eq_false_iff.mpr (length_storeHeader _ _).le
    have hheaderData := hwroteHeader.data_eq hheaderOverflowed
    simp only [hoverflowed, hdata, hheaderOverflowed, hheaderData, Bool.false_eq_true, if_false,
      if_neg hover]
    rfl

/-- **The writer** produces the image of the records, exactly when it finds nothing wrong with them
and the payload fits its ceiling. -/
theorem encodeImage_eq_ok_iff {sha : List UInt8 → Sha256Digest} {records : List StoredPlanRecord}
    {options : StoreOptions} {image : List UInt8} :
    encodeImage sha records options = .ok image ↔ validateLimits options.limits = none ∧
      records.length ≤ options.limits.maxPersistedPlans.toNat ∧
      (∀ record ∈ records, record.IsWritable options.limits) ∧
      (storePayload options.publishSequence records).length ≤ storePayloadCeiling options.limits ∧
      image = storeImage sha options.publishSequence records := by
  constructor
  · intro h
    -- each check that fails ends in an error
    have hlimits : validateLimits options.limits = none := by
      cases hcode : validateLimits options.limits with
      | none => rfl
      | some code => rw [encodeImage, hcode] at h; cases h
    have hcount : records.length ≤ options.limits.maxPersistedPlans.toNat := by
      by_contra hexceeds
      have hexceeds : exceeds records.length options.limits.maxPersistedPlans = true := by
        simpa [exceeds] using hexceeds
      rw [encodeImage, hlimits, hexceeds] at h
      cases h
    have hwritable : ∀ record ∈ records, record.IsWritable options.limits := by
      intro record hrecord
      refine storedRecordError_eq_none_iff.mp ?_
      refine List.findSome?_eq_none_iff.mp ?_ record hrecord
      cases hfind : records.findSome? (storedRecordError options.limits) with
      | none => rfl
      | some failure =>
        have hcount' : exceeds records.length options.limits.maxPersistedPlans = false := by
          simpa [exceeds] using hcount
        rw [encodeImage, hlimits, hcount', hfind] at h
        cases h
    rw [encodeImage_of_isWritable hlimits hcount hwritable] at h
    split_ifs at h with hover
    exact ⟨hlimits, hcount, hwritable, not_lt.mp hover, (Except.ok.inj h).symm⟩
  · rintro ⟨hlimits, hcount, hwritable, hle, rfl⟩
    rw [encodeImage_of_isWritable hlimits hcount hwritable, if_neg hle.not_gt]

end PathPlanner
