import PathPlanner.Runtime.Produced
import PathPlanner.Wire.Outcome

/-!
# Results on the wire

A worker sends every result of the planner as a payload, and a client decodes it. The decoder refuses
nil identities and bounds every count, so not every result that fits a frame reaches the client.

## Main definitions

* `encodePlanningResultPayload`: the encoder
* `decodePlanningResultPayload`: the decoder
* `PlanningResult.received`: a result without what is not written of it
* `PlanningResult.ReachesClient`, `PlanningResult.FitsWire`: what is to be shown, and when it holds

## Main results

* `readResult_spells`: what the field decoders accept
* `not_reachesClient_of_isRefusal`: **no refusal reaches the client**
* `reachesClient_planResult_iff`: **a result reaches the client exactly when it fits the wire**
-/

namespace PathPlanner

open Decoder

/-! ## Texts -/

/-- The bytes of a text. -/
def textBytes (text : String) : List UInt8 := text.toUTF8.data.toList

/-- `std::string::assign`: the text of bytes. Bytes that are not UTF-8 stand for themselves. -/
def textOfBytes (bytes : List UInt8) : String :=
  (String.fromUTF8? ⟨bytes.toArray⟩).getD
    (String.ofList (bytes.map fun byte => Char.ofNat byte.toNat))

@[simp] theorem textOfBytes_textBytes (text : String) : textOfBytes (textBytes text) = text := by
  have hbytes : (⟨(textBytes text).toArray⟩ : ByteArray) = text.toUTF8 := rfl
  unfold textOfBytes String.fromUTF8?
  rw [hbytes, dif_pos (show text.toUTF8.IsValidUTF8 from text.isValidUTF8)]
  rfl

/-! ## The encoder -/

/-- The candidate loop of `EncodePlanningResultPayload`. -/
def encodeResultCandidate (writer : ByteWriter) (candidate : Candidate) : ByteWriter :=
  let writer := writer.id candidate.id
  let writer := candidate.path.encode writer
  let writer := candidate.cost.encode writer
  let writer := writer.u32 candidate.rank.value
  let writer := writer.u32 (WireEnum.value candidate.currentness)
  let writer := writer.u32 (WireEnum.value candidate.authority)
  candidate.notes.foldl (fun writer note => writer.u32 (WireEnum.value note))
    (writer.varU64 candidate.notes.length)

/-- The explanation loop of `EncodePlanningResultPayload`. -/
def encodeExplanation (writer : ByteWriter) (entry : ExplanationEntry) : ByteWriter :=
  (writer.u32 (WireEnum.value entry.code)).text (textBytes entry.detail)

/-- The rejection loop of `EncodePlanningResultPayload`. -/
def encodeRejection (writer : ByteWriter) (rejection : RejectionExplanation) : ByteWriter :=
  let writer := writer.u32 (WireEnum.value rejection.code)
  let writer := writer.u32 (WireEnum.value rejection.subject.kind)
  let writer := writer.fixedBytes rejection.subject.bytes.toList
  let writer := writer.u64 rejection.occurrences
  writer.text (textBytes rejection.detail)

/-- `EncodePlanningResultPayload`. -/
def encodePlanningResultPayload (writer : ByteWriter) (result : PlanningResult) : ByteWriter :=
  let writer := writer.u32 (WireEnum.value result.status)
  let writer := writer.bool result.primaryFailure.isSome
  let writer := result.primaryFailure.elim writer fun code => writer.u32 (WireEnum.value code)
  let writer := writer.id result.sourceEndpoint
  let writer := writer.id result.destinationEndpoint
  let writer := writer.id result.sourceNode
  let writer := writer.id result.destinationNode
  let writer := writer.id result.planId
  let writer := writer.u64 result.planningGeneration.value
  let writer := writer.fixedBytes result.semanticDigest.bytes.toList
  let writer := result.evidence.encode writer
  let writer := writer.u32 result.requestedCandidates.toNat
  let writer := writer.bool result.truncated
  let writer := writer.bool result.diagnosticMode
  let writer := result.candidates.foldl encodeResultCandidate
    (writer.varU64 result.candidates.length)
  let writer := result.explanations.foldl encodeExplanation
    (writer.varU64 result.explanations.length)
  result.rejections.foldl encodeRejection (writer.varU64 result.rejections.length)

/-! ## The decoder -/

/-- The texts of `DecodePath`. -/
def wirePathReasons : PathReasons WireRefusal where
  version := malformed "path encoding version mismatch"
  hopCount := malformed "path hop count exceeds the configured limit"
  sourceName := "hop source"
  targetName := "hop destination"
  staticCost := malformed "hop static cost is missing"
  wellFormed := malformed "decoded path is not well formed"
  simple := malformed "decoded path is not simple"

/-- The texts of `DecodeCost`. -/
def wireCostReasons : CostReasons WireRefusal where
  truncated := malformed "path cost is truncated"
  hops := malformed "path cost hop count out of range"
  overflow := malformed "path cost components overflow"
  sum := malformed "path cost does not equal the sum of its documented components"
  counts := malformed "path cost penalty counts exceed the hop count"

/-- A list behind its number, with one text for what can be wrong with the number. -/
def readCounted {α : Type} (limit : UInt32) (exceeded : String)
    (d : Decoder ByteReader WireRefusal α) : Decoder ByteReader WireRefusal (List α) :=
  ByteReader.counted limit.toNat (malformed exceeded) (malformed exceeded) fun _ => d

/-- An explanation with its text as bytes. -/
structure ExplanationPayload where
  code : DiagnosticCode
  detail : List UInt8

/-- A rejection with its text as bytes. -/
structure RejectionPayload where
  code : DiagnosticCode
  subject : SubjectKey
  occurrences : ℕ
  detail : List UInt8

/-- What a payload says, with the texts as bytes. -/
structure ResultPayload where
  status : PlanStatus
  primaryFailure : Option DiagnosticCode
  sourceEndpoint : EndpointId
  destinationEndpoint : EndpointId
  sourceNode : NodeId
  destinationNode : NodeId
  planId : PathPlanId
  planningGeneration : PlanningGeneration
  semanticDigest : Sha256Digest
  evidence : EvidenceVector
  requestedCandidates : UInt32
  truncated : Bool
  diagnosticMode : Bool
  candidates : List Candidate
  explanations : List ExplanationPayload
  rejections : List RejectionPayload

variable (sha : List UInt8 → Sha256Digest) (limits : ResourceLimits)

/-- The candidate loop of `DecodePlanningResultPayload`. -/
def readResultCandidate (evidence : EvidenceVector) : Decoder ByteReader WireRefusal Candidate := do
  let id ← wireReasons.id "candidate identity"
  let path ← readPath wireReasons wirePathReasons limits
  let cost ← readCost wireCostReasons
  let invalid := malformed "candidate rank is invalid"
  let rank ← ByteReader.bounded 4 invalid invalid
  ensure (rank.value ≠ 0) invalid
  let currentness ← wireReasons.enumeration "candidate currentness" Currentness
  let authority ← wireReasons.enumeration "candidate authority validation" AuthorityValidation
  let notes ← readCounted limits.maxExplanationEntries
    "candidate note count exceeds the configured limit"
    (wireReasons.enumeration "candidate note" DiagnosticCode)
  ensure (id = path.id sha)
    (malformed "candidate identity does not match its canonical path encoding")
  pure { id, path, cost, rank, currentness, authority, notes, evidence }

/-- The explanation loop of `DecodePlanningResultPayload`. -/
def readExplanation : Decoder ByteReader WireRefusal ExplanationPayload := do
  let code ← wireReasons.enumeration "explanation code" DiagnosticCode
  let detail ← ByteReader.text (malformed "explanation text is truncated")
  pure { code, detail }

/-- The rejection loop of `DecodePlanningResultPayload`. -/
def readRejection : Decoder ByteReader WireRefusal RejectionPayload := do
  let code ← wireReasons.enumeration "rejection code" DiagnosticCode
  let kind ← wireReasons.enumeration "rejection subject kind" SubjectKind
  let bytes ← ByteReader.array 16 (malformed "rejection subject is truncated")
  let occurrences ← ByteReader.uint 8 (malformed "rejection entry is truncated")
  let detail ← ByteReader.text (malformed "rejection entry is truncated")
  pure { code, subject := ⟨kind, bytes⟩, occurrences, detail }

/-- The fields of `DecodePlanningResultPayload`. -/
def readResult : Decoder ByteReader WireRefusal ResultPayload := do
  let status ← wireReasons.enumeration "plan status" PlanStatus
  let primaryFailure ← ByteReader.optional (malformed "primary failure flag is missing")
    (wireReasons.enumeration "primary failure" DiagnosticCode)
  let sourceEndpoint ← wireReasons.id "source endpoint"
  let destinationEndpoint ← wireReasons.id "destination endpoint"
  let sourceNode ← wireReasons.id "source node"
  let destinationNode ← wireReasons.id "destination node"
  let planId ← wireReasons.id "plan identity"
  let planningGeneration ← wireReasons.strong "planning generation"
  let semanticDigest ← ByteReader.digest (malformed "semantic digest is truncated")
  let evidence ← wireReasons.evidence
  let flags := malformed "result flags are truncated"
  let requestedCandidates ← ByteReader.u32 flags
  let truncated ← ByteReader.bool flags
  let diagnosticMode ← ByteReader.bool flags
  let candidates ← readCounted limits.maxCandidatesPerRequest
    "candidate count exceeds the configured limit" (readResultCandidate sha limits evidence)
  let explanations ← readCounted limits.maxExplanationEntries
    "explanation count exceeds the configured limit" readExplanation
  let rejections ← readCounted limits.maxExplanationEntries
    "rejection count exceeds the configured limit" readRejection
  pure
    { status, primaryFailure, sourceEndpoint, destinationEndpoint, sourceNode, destinationNode,
      planId, planningGeneration, semanticDigest, evidence, requestedCandidates, truncated,
      diagnosticMode, candidates, explanations, rejections }

/-- The result of a payload. -/
def ResultPayload.result (payload : ResultPayload) : PlanningResult where
  status := payload.status
  primaryFailure := payload.primaryFailure
  sourceEndpoint := payload.sourceEndpoint
  destinationEndpoint := payload.destinationEndpoint
  sourceNode := payload.sourceNode
  destinationNode := payload.destinationNode
  candidates := payload.candidates
  rejections := payload.rejections.map fun rejection =>
    { code := rejection.code
      subject := rejection.subject
      detail := textOfBytes rejection.detail
      occurrences := rejection.occurrences }
  explanations := payload.explanations.map fun entry => ⟨entry.code, textOfBytes entry.detail⟩
  evidence := payload.evidence
  planId := payload.planId
  planningGeneration := payload.planningGeneration
  semanticDigest := payload.semanticDigest
  requestedCandidates := payload.requestedCandidates
  truncated := payload.truncated
  diagnosticMode := payload.diagnosticMode

/-- The result that `DecodePlanningResultPayload` puts out. -/
def decodeResultBytes (bytes : List UInt8) : Except (Stop WireRefusal) PlanningResult := do
  let payload ← readPayload (readResult sha limits)
    "planning result payload carries trailing bytes" bytes
  pure payload.result

/-- `DecodePlanningResultPayload`: none when it accesses anything outside the bytes. -/
def decodePlanningResultPayload (bytes : List UInt8) (detail : String) (out : PlanningResult) :
    Option (WireOutcome PlanningResult) :=
  wireOutcome detail out (decodeResultBytes sha limits bytes)

/-! ## Words -/

/-- The word of a candidate in a payload. -/
def Candidate.wireWord (candidate : Candidate) : List UInt8 :=
  candidate.id.word ++ candidate.path.word ++ candidate.cost.word ++
    littleEndian 4 candidate.rank.value ++ WireEnum.word candidate.currentness ++
    WireEnum.word candidate.authority ++ listWord WireEnum.word candidate.notes

/-- The word of an explanation. -/
def ExplanationPayload.word (entry : ExplanationPayload) : List UInt8 :=
  WireEnum.word entry.code ++ textWord entry.detail

/-- The word of a rejection. -/
def RejectionPayload.word (rejection : RejectionPayload) : List UInt8 :=
  WireEnum.word rejection.code ++ WireEnum.word rejection.subject.kind ++
    rejection.subject.bytes.toList ++ littleEndian 8 rejection.occurrences ++
    textWord rejection.detail

/-- The word of a payload. -/
def ResultPayload.word (payload : ResultPayload) : List UInt8 :=
  WireEnum.word payload.status ++ optionWord WireEnum.word payload.primaryFailure ++
    payload.sourceEndpoint.word ++ payload.destinationEndpoint.word ++ payload.sourceNode.word ++
    payload.destinationNode.word ++ payload.planId.word ++
    littleEndian 8 payload.planningGeneration.value ++ payload.semanticDigest.word ++
    payload.evidence.word ++ littleEndian 4 payload.requestedCandidates.toNat ++
    boolWord payload.truncated ++ boolWord payload.diagnosticMode ++
    listWord Candidate.wireWord payload.candidates ++
    listWord ExplanationPayload.word payload.explanations ++
    listWord RejectionPayload.word payload.rejections

/-- A candidate without what is not written of it: its provenance and the operational evidence of
its hops. -/
def Candidate.received (candidate : Candidate) : Candidate :=
  { candidate with path := candidate.path.structural, provenance := {} }

/-- A result without what is not written of it. -/
def PlanningResult.received (result : PlanningResult) : PlanningResult :=
  { result with candidates := result.candidates.map Candidate.received }

/-- The payload of a result. -/
def PlanningResult.payload (result : PlanningResult) : ResultPayload where
  status := result.status
  primaryFailure := result.primaryFailure
  sourceEndpoint := result.sourceEndpoint
  destinationEndpoint := result.destinationEndpoint
  sourceNode := result.sourceNode
  destinationNode := result.destinationNode
  planId := result.planId
  planningGeneration := result.planningGeneration
  semanticDigest := result.semanticDigest
  evidence := result.evidence
  requestedCandidates := result.requestedCandidates
  truncated := result.truncated
  diagnosticMode := result.diagnosticMode
  candidates := result.candidates.map Candidate.received
  explanations := result.explanations.map fun entry => ⟨entry.code, textBytes entry.detail⟩
  rejections := result.rejections.map fun rejection =>
    ⟨rejection.code, rejection.subject, rejection.occurrences, textBytes rejection.detail⟩

/-- The payload of a result says what is written of it. -/
@[simp] theorem PlanningResult.result_payload (result : PlanningResult) :
    result.payload.result = result.received := by
  have hexplanations : (result.explanations.map fun entry : ExplanationEntry =>
      (⟨entry.code, textBytes entry.detail⟩ : ExplanationPayload)).map (fun entry =>
        (⟨entry.code, textOfBytes entry.detail⟩ : ExplanationEntry)) = result.explanations := by
    rw [List.map_map]
    refine List.map_id'' (fun entry => ?_) _
    simp only [Function.comp_apply, textOfBytes_textBytes]
  have hrejections : (result.rejections.map fun rejection : RejectionExplanation =>
      (⟨rejection.code, rejection.subject, rejection.occurrences, textBytes rejection.detail⟩ :
        RejectionPayload)).map (fun rejection =>
          ({ code := rejection.code, subject := rejection.subject,
             detail := textOfBytes rejection.detail, occurrences := rejection.occurrences } :
            RejectionExplanation)) = result.rejections := by
    rw [List.map_map]
    refine List.map_id'' (fun rejection => ?_) _
    simp only [Function.comp_apply, textOfBytes_textBytes]
  unfold ResultPayload.result payload received
  simp only [hexplanations, hrejections]

section Written

variable {w : ByteWriter} {ceiling : ℕ} {word : List UInt8}

theorem ByteWriter.Wrote.resultCandidate (h : w.Wrote ceiling word) (candidate : Candidate) :
    (encodeResultCandidate w candidate).Wrote ceiling (word ++ candidate.received.wireWord) := by
  have hword : candidate.received.wireWord = candidate.wireWord := by
    change _ ++ candidate.path.structural.word ++ _ ++ _ ++ _ ++ _ ++ _ = _
    rw [CandidatePath.word_structural]
    rfl
  rw [hword]
  simp only [Candidate.wireWord, ← List.append_assoc]
  exact ((((((h.id candidate.id).path candidate.path).cost candidate.cost).u32 _).enumeration
    candidate.currentness).enumeration candidate.authority).list
      fun note _ w word hw => hw.enumeration note

theorem ByteWriter.Wrote.result (h : w.Wrote ceiling word) (result : PlanningResult) :
    (encodePlanningResultPayload w result).Wrote ceiling (word ++ result.payload.word) := by
  have hcandidates : listWord Candidate.wireWord result.payload.candidates =
      listWord (fun candidate => candidate.received.wireWord) result.candidates := by
    change listWord Candidate.wireWord (result.candidates.map Candidate.received) = _
    rw [listWord, listWord, List.length_map, List.flatMap_map]
  have hexplanations : listWord ExplanationPayload.word result.payload.explanations =
      listWord (fun entry : ExplanationEntry =>
        WireEnum.word entry.code ++ textWord (textBytes entry.detail)) result.explanations := by
    change listWord ExplanationPayload.word (result.explanations.map _) = _
    rw [listWord, listWord, List.length_map, List.flatMap_map]
    rfl
  have hrejections : listWord RejectionPayload.word result.payload.rejections =
      listWord (fun rejection : RejectionExplanation => WireEnum.word rejection.code ++
        WireEnum.word rejection.subject.kind ++ rejection.subject.bytes.toList ++
        littleEndian 8 rejection.occurrences ++ textWord (textBytes rejection.detail))
        result.rejections := by
    change listWord RejectionPayload.word (result.rejections.map _) = _
    rw [listWord, listWord, List.length_map, List.flatMap_map]
    rfl
  simp only [ResultPayload.word, hcandidates, hexplanations, hrejections, ← List.append_assoc]
  have hhead := ((((((((((((h.enumeration result.status).option
    (fun w word code hw => hw.enumeration code) result.primaryFailure).id
    result.sourceEndpoint).id result.destinationEndpoint).id result.sourceNode).id
    result.destinationNode).id result.planId).u64 result.planningGeneration.value).fixedBytes
    result.semanticDigest.word).evidence result.evidence).u32
    result.requestedCandidates.toNat).bool result.truncated).bool result.diagnosticMode
  refine ((hhead.list fun candidate _ w word hw => hw.resultCandidate candidate).list
    fun entry _ w word hw => ?_).list fun rejection _ w word hw => ?_
  · rw [← List.append_assoc]
    exact (hw.enumeration entry.code).text _
  · simp only [← List.append_assoc]
    exact ((((hw.enumeration rejection.code).enumeration rejection.subject.kind).fixedBytes _).u64
      _).text _

/-- A result whose word fits is written. -/
theorem overflowed_encodePlanningResultPayload {result : PlanningResult}
    (h : result.payload.word.length ≤ ceiling) :
    (encodePlanningResultPayload (.new ceiling) result).overflowed = false := by
  have hwrote := (ByteWriter.Wrote.new ceiling).result result
  rw [List.nil_append] at hwrote
  exact hwrote.overflowed_eq_false_iff.mpr h

end Written

/-! ## What is accepted -/

/-- A candidate that is accepted, with the evidence of its result. -/
structure Candidate.IsReceivable (evidence : EvidenceVector) (candidate : Candidate) : Prop where
  id_isValid : candidate.id.isValid = true
  path : candidate.path.IsReadable limits.maxHops.toNat
  cost : candidate.cost.IsCoherent
  rank_le : candidate.rank.value ≤ maxCandidateRank
  rank_ne : candidate.rank.value ≠ 0
  notes_le : candidate.notes.length ≤ limits.maxExplanationEntries.toNat
  id_eq : candidate.id = candidate.path.id sha
  evidence_eq : candidate.evidence = evidence
  provenance_eq : candidate.provenance = {}

/-- A payload that is accepted. -/
structure ResultPayload.IsReceivable (payload : ResultPayload) : Prop where
  sourceEndpoint_isValid : payload.sourceEndpoint.isValid = true
  destinationEndpoint_isValid : payload.destinationEndpoint.isValid = true
  sourceNode_isValid : payload.sourceNode.isValid = true
  destinationNode_isValid : payload.destinationNode.isValid = true
  planId_isValid : payload.planId.isValid = true
  snapshot_isValid : payload.evidence.snapshot.isValid = true
  candidates_le : payload.candidates.length ≤ limits.maxCandidatesPerRequest.toNat
  candidates : ∀ candidate ∈ payload.candidates, candidate.IsReceivable sha limits payload.evidence
  explanations_le : payload.explanations.length ≤ limits.maxExplanationEntries.toNat
  explanations : ∀ entry ∈ payload.explanations, entry.detail.length < 2 ^ 64
  rejections_le : payload.rejections.length ≤ limits.maxExplanationEntries.toNat
  rejections : ∀ rejection ∈ payload.rejections,
    rejection.occurrences < 2 ^ 64 ∧ rejection.detail.length < 2 ^ 64

theorem readCounted_spells {α : Type} {P : α → Prop} {word : α → List UInt8}
    {d : Decoder ByteReader WireRefusal α} (h : Spells d P word) (limit : UInt32)
    (exceeded : String) :
    Spells (readCounted limit exceeded d) (fun l => l.length ≤ limit.toNat ∧ ∀ a ∈ l, P a)
      (listWord word) :=
  ByteReader.counted_spells_of_const h (ByteReader.ceiling_lt _) _ _

theorem readResultCandidate_spells (evidence : EvidenceVector) :
    Spells (readResultCandidate sha limits evidence) (Candidate.IsReceivable sha limits evidence)
      Candidate.wireWord := by
  refine .congr (.start <|
    (wireReasons.id_spells "candidate identity").field Candidate.id fun id _ =>
    (readPath_spells wireReasons wirePathReasons limits).field Candidate.path fun path _ =>
    (readCost_spells wireCostReasons).field Candidate.cost fun cost _ =>
    (ByteReader.bounded_spells (by norm_num) _ _).field Candidate.rank fun rank _ =>
    .ensure (fun candidate : Candidate => candidate.rank.value ≠ 0)
      (fun candidate h => by rw [h.2]) fun _ =>
    (wireReasons.enumeration_spells "candidate currentness" Currentness).field
      Candidate.currentness fun currentness _ =>
    (wireReasons.enumeration_spells "candidate authority validation" AuthorityValidation).field
      Candidate.authority fun authority _ =>
    (readCounted_spells (wireReasons.enumeration_spells "candidate note" DiagnosticCode)
      limits.maxExplanationEntries _).field Candidate.notes fun notes _ =>
    .ensure (fun candidate : Candidate => candidate.id = candidate.path.id sha) ?_ fun _ =>
    .done (Q := fun candidate : Candidate => candidate.evidence = evidence ∧
      candidate.provenance = {}) fun candidate => ?_) (fun candidate => ?_) fun candidate _ => ?_
  · rintro candidate ⟨⟨⟨⟨⟨⟨⟨-, rfl⟩, rfl⟩, rfl⟩, rfl⟩, rfl⟩, rfl⟩, rfl⟩
    exact Iff.rfl
  · cases candidate
    simp only [Candidate.mk.injEq, true_and]
    grind
  · simp only [Currentness.isKnown, AuthorityValidation.isKnown, DiagnosticCode.isKnown, true_and,
      implies_true, and_true]
    constructor
    · exact fun h => ⟨h.id_isValid, h.path, h.cost, h.rank_le, h.rank_ne, h.notes_le, h.id_eq,
        h.evidence_eq, h.provenance_eq⟩
    · rintro ⟨h₁, h₂, h₃, h₄, h₅, h₆, h₇, h₈, h₉⟩
      exact ⟨h₁, h₂, h₃, h₄, h₅, h₆, h₇, h₈, h₉⟩
  · simp only [Candidate.wireWord, List.append_assoc, List.append_nil]

theorem readExplanation_spells : Spells readExplanation
    (fun entry => entry.detail.length < 2 ^ 64) ExplanationPayload.word := by
  refine .congr (.start <|
    (wireReasons.enumeration_spells "explanation code" DiagnosticCode).field
      ExplanationPayload.code fun code _ =>
    (ByteReader.text_spells _).field ExplanationPayload.detail fun detail _ =>
    .done (Q := fun _ => True) fun entry => ?_) (fun entry => ?_) fun entry _ => ?_
  · cases entry
    simp only [ExplanationPayload.mk.injEq, true_and, and_true]
  · simp only [DiagnosticCode.isKnown, true_and, and_true]
  · simp only [ExplanationPayload.word, List.append_nil]

theorem readRejection_spells : Spells readRejection
    (fun rejection => rejection.occurrences < 2 ^ 64 ∧ rejection.detail.length < 2 ^ 64)
    RejectionPayload.word := by
  refine .congr (.start <|
    (wireReasons.enumeration_spells "rejection code" DiagnosticCode).field
      RejectionPayload.code fun code _ =>
    (wireReasons.enumeration_spells "rejection subject kind" SubjectKind).field
      (fun rejection : RejectionPayload => rejection.subject.kind) fun kind _ =>
    (ByteReader.array_spells 16 _).field
      (fun rejection : RejectionPayload => rejection.subject.bytes) fun bytes _ =>
    (ByteReader.uint_spells 8 _).field RejectionPayload.occurrences fun occurrences _ =>
    (ByteReader.text_spells _).field RejectionPayload.detail fun detail _ =>
    .done (Q := fun _ => True) fun rejection => ?_) (fun rejection => ?_) fun rejection _ => ?_
  · obtain ⟨code, ⟨kind, bytes⟩, occurrences, detail⟩ := rejection
    simp only [RejectionPayload.mk.injEq, SubjectKey.mk.injEq, true_and, and_true, and_assoc]
  · simp only [DiagnosticCode.isKnown, SubjectKind.isKnown, true_and, and_true]
    exact Iff.rfl
  · simp only [RejectionPayload.word, List.append_assoc, List.append_nil]

theorem readResult_spells :
    Spells (readResult sha limits) (ResultPayload.IsReceivable sha limits) ResultPayload.word := by
  refine .congr (.start <|
    (wireReasons.enumeration_spells "plan status" PlanStatus).field ResultPayload.status
      fun status _ =>
    (ByteReader.optional_spells
      (wireReasons.enumeration_spells "primary failure" DiagnosticCode) _).field
      ResultPayload.primaryFailure fun primaryFailure _ =>
    (wireReasons.id_spells "source endpoint").field ResultPayload.sourceEndpoint
      fun sourceEndpoint _ =>
    (wireReasons.id_spells "destination endpoint").field ResultPayload.destinationEndpoint
      fun destinationEndpoint _ =>
    (wireReasons.id_spells "source node").field ResultPayload.sourceNode fun sourceNode _ =>
    (wireReasons.id_spells "destination node").field ResultPayload.destinationNode
      fun destinationNode _ =>
    (wireReasons.id_spells "plan identity").field ResultPayload.planId fun planId _ =>
    (wireReasons.strong_spells "planning generation").field ResultPayload.planningGeneration
      fun planningGeneration _ =>
    (ByteReader.digest_spells _).field ResultPayload.semanticDigest fun semanticDigest _ =>
    wireReasons.evidence_spells.field ResultPayload.evidence fun evidence _ =>
    (ByteReader.u32_spells _).field ResultPayload.requestedCandidates fun requested _ =>
    (ByteReader.bool_spells _).field ResultPayload.truncated fun truncated _ =>
    (ByteReader.bool_spells _).field ResultPayload.diagnosticMode fun diagnosticMode _ =>
    .dependentField
      (C := fun payload : ResultPayload =>
        payload.candidates.length ≤ limits.maxCandidatesPerRequest.toNat ∧
          ∀ c ∈ payload.candidates, c.IsReceivable sha limits payload.evidence)
      ResultPayload.candidates ?_
      (readCounted_spells (readResultCandidate_spells sha limits evidence)
        limits.maxCandidatesPerRequest _) fun candidates _ =>
    (readCounted_spells readExplanation_spells limits.maxExplanationEntries _).field
      ResultPayload.explanations fun explanations _ =>
    (readCounted_spells readRejection_spells limits.maxExplanationEntries _).field
      ResultPayload.rejections fun rejections _ =>
    .done (Q := fun _ => True) fun payload => ?_) (fun payload => ?_) fun payload _ => ?_
  · rintro payload ⟨⟨⟨⟨-, rfl⟩, -⟩, -⟩, -⟩
    exact Iff.rfl
  · cases payload
    simp only [ResultPayload.mk.injEq, true_and, and_true, and_assoc]
  · simp only [PlanStatus.isKnown, DiagnosticCode.isKnown, true_and, implies_true, and_true]
    constructor
    · exact fun h => ⟨h.sourceEndpoint_isValid, h.destinationEndpoint_isValid,
        h.sourceNode_isValid, h.destinationNode_isValid, h.planId_isValid, h.snapshot_isValid,
        ⟨h.candidates_le, h.candidates⟩, ⟨h.explanations_le, h.explanations⟩,
        h.rejections_le, h.rejections⟩
    · rintro ⟨h₁, h₂, h₃, h₄, h₅, h₆, ⟨h₇, h₈⟩, ⟨h₉, h₁₀⟩, h₁₁, h₁₂⟩
      exact ⟨h₁, h₂, h₃, h₄, h₅, h₆, h₇, h₈, h₉, h₁₀, h₁₁, h₁₂⟩
  · simp only [ResultPayload.word, List.append_assoc, List.append_nil]

/-! ## What reaches the client -/

section Reaches

variable {sha : List UInt8 → Sha256Digest} {limits : ResourceLimits} {bytes : List UInt8}
  {request : PlanningRequest} {result : PlanningResult}

theorem decodeResultBytes_eq_ok_iff : decodeResultBytes sha limits bytes = .ok result ↔
    ∃ payload : ResultPayload, payload.IsReceivable sha limits ∧ payload.word = bytes ∧
      payload.result = result := by
  have hread (payload : ResultPayload) : readPayload (readResult sha limits)
      "planning result payload carries trailing bytes" bytes = .ok payload ↔
        payload.IsReceivable sha limits ∧ payload.word = bytes :=
    readPayload_eq_ok_iff (readResult_spells sha limits)
  unfold decodeResultBytes
  cases hpayload : readPayload (readResult sha limits)
    "planning result payload carries trailing bytes" bytes with
  | error stop =>
    rw [hpayload] at hread
    constructor
    · intro h
      cases h
    · rintro ⟨payload, hreceivable, hword, -⟩
      cases (hread payload).mpr ⟨hreceivable, hword⟩
  | ok decoded =>
    rw [hpayload] at hread
    simp only [ok_bind]
    constructor
    · intro h
      obtain ⟨hreceivable, hword⟩ := (hread decoded).mp rfl
      exact ⟨decoded, hreceivable, hword, Except.ok.inj h⟩
    · rintro ⟨payload, hreceivable, hword, rfl⟩
      rw [Except.ok.inj ((hread payload).mpr ⟨hreceivable, hword⟩)]
      rfl

variable (sha limits request result)

/-- **The result reaches the client**: the decoder accepts what the encoder writes into a frame, as
the result without what is not written, and the plan made of it is the plan made on the worker. -/
structure PlanningResult.ReachesClient : Prop where
  decode_eq : ∀ detail out, decodePlanningResultPayload sha limits
    (encodePlanningResultPayload (.new limits.maxFrameBytes.toNat) result).data detail out =
      some ⟨.ok, detail, result.received⟩
  digest_eq : ∀ sequence, (makePathPlan sha request result.received sequence).semanticDigest =
    (makePathPlan sha request result sequence).semanticDigest
  planId_eq : ∀ sequence, (makePathPlan sha request result.received sequence).id =
    (makePathPlan sha request result sequence).id

/-- The result fits the wire: it names a plan and a snapshot, its candidates are named, their paths
are short enough and their ranks are ranks, and there are not too many notes, explanations and
rejections. -/
structure PlanningResult.FitsWire : Prop where
  planId_isValid : result.planId.isValid = true
  snapshot_isValid : result.evidence.snapshot.isValid = true
  ids_isValid : ∀ c ∈ result.candidates, c.id.isValid = true
  hops_le : ∀ c ∈ result.candidates, c.path.hops.length ≤ limits.maxHops.toNat
  ranks_le : ∀ c ∈ result.candidates, c.rank.value ≤ maxCandidateRank
  notes_le : ∀ c ∈ result.candidates, c.notes.length ≤ limits.maxExplanationEntries.toNat
  explanations_le : result.explanations.length ≤ limits.maxExplanationEntries.toNat
  rejections_le : result.rejections.length ≤ limits.maxExplanationEntries.toNat

instance : Decidable (result.FitsWire limits) :=
  decidable_of_iff ((result.planId.isValid = true ∧ result.evidence.snapshot.isValid = true) ∧
      (∀ c ∈ result.candidates, c.id.isValid = true ∧
        c.path.hops.length ≤ limits.maxHops.toNat ∧ c.rank.value ≤ maxCandidateRank ∧
        c.notes.length ≤ limits.maxExplanationEntries.toNat) ∧
      result.explanations.length ≤ limits.maxExplanationEntries.toNat ∧
      result.rejections.length ≤ limits.maxExplanationEntries.toNat)
    ⟨fun ⟨⟨hplan, hsnapshot⟩, hc, hexplanations, hrejections⟩ =>
        ⟨hplan, hsnapshot, fun c h => (hc c h).1, fun c h => (hc c h).2.1,
          fun c h => (hc c h).2.2.1, fun c h => (hc c h).2.2.2, hexplanations, hrejections⟩,
      fun h => ⟨⟨h.planId_isValid, h.snapshot_isValid⟩, fun c hc =>
        ⟨h.ids_isValid c hc, h.hops_le c hc, h.ranks_le c hc, h.notes_le c hc⟩,
        h.explanations_le, h.rejections_le⟩⟩

variable {sha limits request result}

/-- What is not written of a result does not enter the plan that is made of it. -/
theorem PlanningResult.sameMeaning_received : result.received.SameMeaning result where
  status := rfl
  source := rfl
  destination := rfl
  evidence := rfl
  candidates := by
    change (result.candidates.map Candidate.received).map Candidate.semanticWord = _
    rw [List.map_map]
    rfl

/-- A result that is decoded from a payload fits the wire. -/
theorem ResultPayload.IsReceivable.fitsWire {payload : ResultPayload}
    (h : payload.IsReceivable sha limits) (hresult : payload.result = result.received) :
    result.FitsWire limits := by
  have hplanId : payload.planId = result.planId := congrArg PlanningResult.planId hresult
  have hevidence : payload.evidence = result.evidence := congrArg PlanningResult.evidence hresult
  have hcandidates : payload.candidates = result.candidates.map Candidate.received :=
    congrArg PlanningResult.candidates hresult
  have hexplanations := congrArg (fun r => r.explanations.length) hresult
  have hrejections := congrArg (fun r => r.rejections.length) hresult
  dsimp only [ResultPayload.result, PlanningResult.received] at hexplanations hrejections
  rw [List.length_map] at hexplanations hrejections
  have hreceived : ∀ c ∈ result.candidates, c.received.IsReceivable sha limits payload.evidence :=
    fun c hc => h.candidates _ (hcandidates ▸ List.mem_map_of_mem hc)
  refine ⟨hplanId ▸ h.planId_isValid, hevidence ▸ h.snapshot_isValid,
    fun c hc => (hreceived c hc).id_isValid, fun c hc => ?_, fun c hc => (hreceived c hc).rank_le,
    fun c hc => (hreceived c hc).notes_le, hexplanations ▸ h.explanations_le,
    hrejections ▸ h.rejections_le⟩
  have hle := (hreceived c hc).path.hops_le
  change (c.path.hops.map PathHop.structural).length ≤ _ at hle
  rwa [List.length_map] at hle

/-- What reaches the client fits the wire. -/
theorem PlanningResult.ReachesClient.fitsWire (h : result.ReachesClient sha limits request) :
    result.FitsWire limits := by
  have hok := eq_ok_of_status_eq_ok (h.decode_eq "" {}) rfl
  obtain ⟨payload, hreceivable, -, hresult⟩ := decodeResultBytes_eq_ok_iff.mp hok
  exact hreceivable.fitsWire hresult

/-- **No refusal reaches the client**: it names no plan. -/
theorem not_reachesClient_of_isRefusal {capture : PlanCapture} (h : IsRefusal capture result) :
    ¬ result.ReachesClient sha limits request := by
  intro hreaches
  have hvalid := hreaches.fitsWire.planId_isValid
  rw [h.planId] at hvalid
  cases hvalid

/-- The word of an element is a part of the word of a list. -/
theorem length_le_listWord {α : Type} (word : α → List UInt8) {l : List α} {a : α}
    (ha : a ∈ l) : (word a).length ≤ (listWord word l).length := by
  have hsub := (List.sublist_flatten_of_mem (List.mem_map_of_mem (f := word) ha)).length_le
  rw [← List.flatMap_def] at hsub
  rw [listWord, List.length_append]
  omega

/-- **A produced result that fits the wire** has a payload that is accepted. -/
theorem PlanningResult.IsProduced.isReceivable_payload
    (h : result.IsProduced sha limits request) (hwire : result.FitsWire limits)
    (hlength : result.payload.word.length < 2 ^ 64) :
    result.payload.IsReceivable sha limits where
  sourceEndpoint_isValid := h.sourceEndpoint_isValid
  destinationEndpoint_isValid := h.destinationEndpoint_isValid
  sourceNode_isValid := h.sourceNode_isValid
  destinationNode_isValid := h.destinationNode_isValid
  planId_isValid := hwire.planId_isValid
  snapshot_isValid := hwire.snapshot_isValid
  candidates_le := by
    change (result.candidates.map Candidate.received).length ≤ _
    rw [List.length_map]
    exact h.length_le
  candidates := by
    change ∀ candidate ∈ result.candidates.map Candidate.received, _
    rw [List.forall_mem_map]
    intro c hc
    have hproduced := h.candidates c hc
    have hrank := List.mem_map_of_mem (f := fun c : Candidate => c.rank.value) hc
    rw [h.ranks, List.mem_range'_1] at hrank
    exact ⟨hwire.ids_isValid c hc, hproduced.isReadable_structural_iff.mpr (hwire.hops_le c hc),
      hproduced.cost_isCoherent, hwire.ranks_le c hc, Nat.one_le_iff_ne_zero.mp hrank.1,
      hwire.notes_le c hc, hproduced.id_eq.trans (CandidatePath.id_structural sha c.path).symm,
      hproduced.evidence_eq, rfl⟩
  explanations_le := by
    change (result.explanations.map _).length ≤ _
    rw [List.length_map]
    exact hwire.explanations_le
  explanations := by
    intro entry hentry
    have hentryLength := length_le_listWord ExplanationPayload.word hentry
    simp only [ExplanationPayload.word, textWord, ResultPayload.word, List.length_append]
      at hentryLength hlength
    omega
  rejections_le := by
    change (result.rejections.map _).length ≤ _
    rw [List.length_map]
    exact hwire.rejections_le
  rejections := by
    intro rejection hrejection
    have hrejectionLength := length_le_listWord RejectionPayload.word hrejection
    simp only [RejectionPayload.word, textWord, ResultPayload.word, List.length_append]
      at hrejectionLength hlength
    refine ⟨?_, by omega⟩
    obtain ⟨source, hsource, rfl⟩ := List.mem_map.mp hrejection
    exact h.occurrences_lt source hsource

end Reaches

/-! ## The results of the planner -/

namespace RuntimeState

variable {sha : List UInt8 → Sha256Digest} {capture : PlanCapture} {request : PlanningRequest}
  {compared published : RuntimeState}

/-- **A result reaches the client** exactly when it fits the wire, if it fits a frame. -/
theorem reachesClient_planResult_iff
    (hframe : (encodePlanningResultPayload (.new capture.limits.maxFrameBytes.toNat)
      (planResult sha capture request compared published)).overflowed = false) :
    (planResult sha capture request compared published).ReachesClient sha capture.limits request ↔
      (planResult sha capture request compared published).FitsWire capture.limits := by
  refine ⟨PlanningResult.ReachesClient.fitsWire, fun hwire => ?_⟩
  have hwrote := (ByteWriter.Wrote.new capture.limits.maxFrameBytes.toNat).result
    (planResult sha capture request compared published)
  rw [List.nil_append] at hwrote
  have hlength := (hwrote.overflowed_eq_false_iff.mp hframe).trans_lt
    (ByteReader.ceiling_lt capture.limits.maxFrameBytes)
  rcases @planResult_cases_produced sha capture request compared published with
    hrefusal | hproduced
  · -- a refusal names no plan
    have hvalid := hwire.planId_isValid
    rw [hrefusal.planId] at hvalid
    cases hvalid
  · have hok := decodeResultBytes_eq_ok_iff.mpr ⟨_,
      hproduced.isReceivable_payload hwire hlength, (hwrote.data_eq hframe).symm,
      PlanningResult.result_payload _⟩
    have hsame := makePathPlan_congr sha request
      (planResult sha capture request compared published).sameMeaning_received
    refine ⟨fun detail out => ?_, fun sequence => (hsame sequence sequence).1,
      fun sequence => (hsame sequence sequence).2⟩
    unfold decodePlanningResultPayload
    rw [hok]
    rfl

/-- A path of one hop between two nodes reaches the client under the default limits. -/
theorem reachesClient_planResult_directPath :
    (planResult constantHash (captureOver parallelLinks) directPath (runtimeOver parallelLinks)
      (runtimeOver parallelLinks)).ReachesClient constantHash (captureOver parallelLinks).limits
        directPath := by
  have hword : (planResult constantHash (captureOver parallelLinks) directPath
      (runtimeOver parallelLinks) (runtimeOver parallelLinks)).payload.word.length ≤
        (captureOver parallelLinks).limits.maxFrameBytes.toNat := by decide +kernel
  have hwire : (planResult constantHash (captureOver parallelLinks) directPath
      (runtimeOver parallelLinks) (runtimeOver parallelLinks)).FitsWire
        (captureOver parallelLinks).limits := by decide +kernel
  exact (reachesClient_planResult_iff (overflowed_encodePlanningResultPayload hword)).mpr hwire

/-- What a call to a new runtime without a snapshot captures. -/
def captureOverNothing : PlanCapture :=
  ((RuntimeState.new {} none false).capturePlan fun _ _ _ => .notRequested).1

/-- The result of a valid request to a runtime without a snapshot does not reach the client. -/
theorem not_reachesClient_planResult :
    ¬ ∀ (sha : List UInt8 → Sha256Digest) (capture : PlanCapture) (request : PlanningRequest)
      (compared published : RuntimeState), validateLimits capture.limits = none →
      validateRequest request capture.limits = none →
      (encodePlanningResultPayload (.new capture.limits.maxFrameBytes.toNat)
        (planResult sha capture request compared published)).overflowed = false →
      (planResult sha capture request compared published).ReachesClient sha capture.limits
        request := by
  intro h
  have hword : (planResult constantHash captureOverNothing (.between 1 2)
      (runtimeOver parallelLinks) (runtimeOver parallelLinks)).payload.word.length ≤
        captureOverNothing.limits.maxFrameBytes.toNat := by decide +kernel
  have hwire : ¬ (planResult constantHash captureOverNothing (.between 1 2)
      (runtimeOver parallelLinks) (runtimeOver parallelLinks)).FitsWire
        captureOverNothing.limits := by decide +kernel
  exact hwire (h constantHash captureOverNothing (.between 1 2) (runtimeOver parallelLinks)
    (runtimeOver parallelLinks) (by decide) (by decide +kernel)
    (overflowed_encodePlanningResultPayload hword)).fitsWire

end RuntimeState

end PathPlanner
