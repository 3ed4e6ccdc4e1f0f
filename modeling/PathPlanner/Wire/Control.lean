import PathPlanner.Wire.Request
import PathPlanner.Wire.Result

/-!
# Control payloads on the wire

Handshakes, errors, fence notices, descriptions of a snapshot and answers about currentness have a
payload each. Their decoders refuse a nil identity, which the encoders write like any other.

## Main definitions

* `encodePlanErrorPayload`, `encodeFenceNoticePayload`, `encodeSnapshotResponsePayload`,
  `encodeCurrentnessResultPayload`, `encodeHelloPayload`: the encoders
* `decodePlanErrorBytes` and the others: the decoders
* `ControlPayload`: any of these payloads
* `ControlPayload.IsReadable`: the receiver decodes what the sender encoded
* `wireCodec`: the decoders of a coordinator

## Main results

* `ControlPayload.isReadable_iff`: **a payload is readable exactly when its identities are there and
  it fits**
-/

namespace PathPlanner

open Decoder

/-! ## Statuses -/

/-- `kWireStatusNames`. -/
def wireStatusNames : List (String × ℕ) :=
  [("OK", 1), ("MALFORMED", 2), ("VERSION_MISMATCH", 3), ("INTEGRITY_MISMATCH", 4),
    ("UNKNOWN_MESSAGE", 5), ("TOO_LARGE", 6), ("TRAILING_BYTES", 7), ("EPOCH_STALE", 8),
    ("WORKER_FENCED", 9), ("UNKNOWN_WORKER", 10), ("SNAPSHOT_MISMATCH", 11),
    ("RECEIVE_BOUND_EXCEEDED", 12), ("SESSION_LIMIT", 13), ("NO_WORKER_AVAILABLE", 14),
    ("INTERNAL", 15), ("REQUEST_MISMATCH", 16), ("UNSUPPORTED", 17)]

/-- The stable numeric value of a status. -/
def WireStatus.value (status : WireStatus) : ℕ := status.ctorIdx + 1

instance : WireEnum WireStatus where
  names := wireStatusNames
  value := WireStatus.value
  ofValue n := WireStatus.ofNat (n - 1)
  value_lt e := by cases e <;> decide
  value_ofValue := by decide
  ofValue_value e _ := by cases e <;> rfl

@[simp] theorem WireStatus.isKnown (e : WireStatus) : WireEnum.IsKnown e := by
  cases e <;> decide

/-! ## The encoders -/

/-- `EncodeHelloPayload`. -/
def encodeHelloPayload (writer : ByteWriter) (payload : HelloPayload) : ByteWriter :=
  let writer := writer.id payload.publisher
  let writer := writer.id payload.boot
  let writer := writer.u64 payload.coordinatorEpoch.value
  let writer := writer.id payload.snapshot
  let writer := payload.generations.encode writer
  let writer := writer.u32 payload.nodeCount.toNat
  writer.u32 payload.edgeCount.toNat

/-- `EncodePlanErrorPayload`. -/
def encodePlanErrorPayload (writer : ByteWriter) (payload : PlanErrorPayload) : ByteWriter :=
  let writer := writer.id payload.request
  let writer := writer.u32 (WireEnum.value payload.status)
  let writer := writer.u32 (WireEnum.value payload.planStatus)
  let writer := writer.u32 (WireEnum.value payload.code)
  writer.text (textBytes payload.detail)

/-- `EncodeFenceNoticePayload`. -/
def encodeFenceNoticePayload (writer : ByteWriter) (payload : FenceNoticePayload) : ByteWriter :=
  let writer := writer.id payload.boot
  let writer := writer.u32 (WireEnum.value payload.status)
  let writer := writer.u32 (WireEnum.value payload.code)
  writer.text (textBytes payload.detail)

/-- `EncodeSnapshotResponsePayload`. -/
def encodeSnapshotResponsePayload (writer : ByteWriter) (payload : SnapshotResponsePayload) :
    ByteWriter :=
  let writer := writer.id payload.snapshot
  let writer := payload.generations.encode writer
  let writer := writer.u32 payload.nodeCount.toNat
  writer.u32 payload.edgeCount.toNat

/-- `EncodeCurrentnessQueryPayload`. -/
def encodeCurrentnessQueryPayload (writer : ByteWriter) (payload : CurrentnessQueryPayload) :
    ByteWriter :=
  payload.evidence.encode ((writer.id payload.plan).id payload.request)

/-- `EncodeCurrentnessResultPayload`. -/
def encodeCurrentnessResultPayload (writer : ByteWriter) (payload : CurrentnessResultPayload) :
    ByteWriter :=
  let writer := writer.id payload.plan
  let writer := writer.u32 (WireEnum.value payload.currentness)
  payload.changes.foldl encodeExplanation (writer.varU64 payload.changes.length)

/-! ## The decoders -/

/-- What an error says, with its text as bytes. -/
structure PlanErrorBytes where
  request : PlanningRequestId
  status : WireStatus
  planStatus : PlanStatus
  code : DiagnosticCode
  detail : List UInt8

/-- What a fence notice says, with its text as bytes. -/
structure FenceNoticeBytes where
  boot : WorkerBootId
  status : WireStatus
  code : DiagnosticCode
  detail : List UInt8

/-- What an answer says, with its texts as bytes. -/
structure CurrentnessResultBytes where
  plan : PathPlanId
  currentness : Currentness
  changes : List ExplanationPayload

/-- The fields of `DecodeHelloPayload`. -/
def readHello : Decoder ByteReader WireRefusal HelloPayload := do
  let publisher ← wireReasons.id "publisher identity"
  let boot ← wireReasons.id "worker boot identity"
  let coordinatorEpoch ← wireReasons.strong "coordinator epoch"
  let snapshot ← wireReasons.id "snapshot identity"
  let generations ← wireReasons.generations
  let truncated := malformed "hello payload is truncated"
  let nodeCount ← ByteReader.u32 truncated
  let edgeCount ← ByteReader.u32 truncated
  pure { publisher, boot, coordinatorEpoch, snapshot, generations, nodeCount, edgeCount }

/-- The fields of `DecodePlanErrorPayload`. -/
def readPlanError : Decoder ByteReader WireRefusal PlanErrorBytes := do
  let request ← wireReasons.id "request identity"
  let status ← wireReasons.enumeration "wire status" WireStatus
  let planStatus ← wireReasons.enumeration "plan status" PlanStatus
  let code ← wireReasons.enumeration "diagnostic code" DiagnosticCode
  let detail ← ByteReader.text (malformed "error detail is truncated")
  pure { request, status, planStatus, code, detail }

/-- The fields of `DecodeFenceNoticePayload`. -/
def readFenceNotice : Decoder ByteReader WireRefusal FenceNoticeBytes := do
  let boot ← wireReasons.id "worker boot identity"
  let status ← wireReasons.enumeration "wire status" WireStatus
  let code ← wireReasons.enumeration "diagnostic code" DiagnosticCode
  let detail ← ByteReader.text (malformed "fence detail is truncated")
  pure { boot, status, code, detail }

/-- The fields of `DecodeSnapshotResponsePayload`. -/
def readSnapshotResponse : Decoder ByteReader WireRefusal SnapshotResponsePayload := do
  let snapshot ← wireReasons.id "snapshot identity"
  let generations ← wireReasons.generations
  let truncated := malformed "snapshot response is truncated"
  let nodeCount ← ByteReader.u32 truncated
  let edgeCount ← ByteReader.u32 truncated
  pure { snapshot, generations, nodeCount, edgeCount }

/-- The fields of `DecodeCurrentnessQueryPayload`. -/
def readCurrentnessQuery : Decoder ByteReader WireRefusal CurrentnessQueryPayload := do
  let plan ← wireReasons.id "plan identity"
  let request ← wireReasons.id "request identity"
  let evidence ← wireReasons.evidence
  pure { plan, evidence, request }

/-- The change loop of `DecodeCurrentnessResultPayload`. -/
def readChange : Decoder ByteReader WireRefusal ExplanationPayload := do
  let code ← wireReasons.enumeration "change code" DiagnosticCode
  let detail ← ByteReader.text (malformed "change detail is truncated")
  pure { code, detail }

/-- The fields of `DecodeCurrentnessResultPayload`. -/
def readCurrentnessResult (limits : ResourceLimits) :
    Decoder ByteReader WireRefusal CurrentnessResultBytes := do
  let plan ← wireReasons.id "plan identity"
  let currentness ← wireReasons.enumeration "currentness" Currentness
  let changes ← readCounted limits.maxExplanationEntries
    "change count exceeds the configured limit" readChange
  pure { plan, currentness, changes }

/-- `DecodeHelloPayload`. -/
def decodeHelloBytes (bytes : List UInt8) : Except (Stop WireRefusal) HelloPayload :=
  readPayload readHello "hello payload carries trailing bytes" bytes

/-- `DecodePlanErrorPayload`, with its text as bytes. -/
def decodePlanErrorBytes (bytes : List UInt8) : Except (Stop WireRefusal) PlanErrorBytes :=
  readPayload readPlanError "error payload carries trailing bytes" bytes

/-- `DecodeFenceNoticePayload`, with its text as bytes. -/
def decodeFenceNoticeBytes (bytes : List UInt8) : Except (Stop WireRefusal) FenceNoticeBytes :=
  readPayload readFenceNotice "fence payload carries trailing bytes" bytes

/-- `DecodeSnapshotResponsePayload`. -/
def decodeSnapshotResponseBytes (bytes : List UInt8) :
    Except (Stop WireRefusal) SnapshotResponsePayload :=
  readPayload readSnapshotResponse "snapshot response carries trailing bytes" bytes

/-- `DecodeCurrentnessQueryPayload`. -/
def decodeCurrentnessQueryBytes (bytes : List UInt8) :
    Except (Stop WireRefusal) CurrentnessQueryPayload :=
  readPayload readCurrentnessQuery "currentness query carries trailing bytes" bytes

/-- `DecodeCurrentnessResultPayload`, with its texts as bytes. -/
def decodeCurrentnessResultBytes (limits : ResourceLimits) (bytes : List UInt8) :
    Except (Stop WireRefusal) CurrentnessResultBytes :=
  readPayload (readCurrentnessResult limits) "currentness result carries trailing bytes" bytes

/-! ## Words -/

/-- The word of a handshake. -/
def HelloPayload.word (payload : HelloPayload) : List UInt8 :=
  payload.publisher.word ++ payload.boot.word ++ littleEndian 8 payload.coordinatorEpoch.value ++
    payload.snapshot.word ++ payload.generations.word ++
    littleEndian 4 payload.nodeCount.toNat ++ littleEndian 4 payload.edgeCount.toNat

/-- The word of an error. -/
def PlanErrorBytes.word (payload : PlanErrorBytes) : List UInt8 :=
  payload.request.word ++ WireEnum.word payload.status ++ WireEnum.word payload.planStatus ++
    WireEnum.word payload.code ++ textWord payload.detail

/-- The word of a fence notice. -/
def FenceNoticeBytes.word (payload : FenceNoticeBytes) : List UInt8 :=
  payload.boot.word ++ WireEnum.word payload.status ++ WireEnum.word payload.code ++
    textWord payload.detail

/-- The word of a description. -/
def SnapshotResponsePayload.word (payload : SnapshotResponsePayload) : List UInt8 :=
  payload.snapshot.word ++ payload.generations.word ++
    littleEndian 4 payload.nodeCount.toNat ++ littleEndian 4 payload.edgeCount.toNat

/-- The word of a query. -/
def CurrentnessQueryPayload.word (payload : CurrentnessQueryPayload) : List UInt8 :=
  payload.plan.word ++ payload.request.word ++ payload.evidence.word

/-- The word of an answer. -/
def CurrentnessResultBytes.word (payload : CurrentnessResultBytes) : List UInt8 :=
  payload.plan.word ++ WireEnum.word payload.currentness ++
    listWord ExplanationPayload.word payload.changes

/-- An error with its text as bytes. -/
def PlanErrorPayload.bytes (payload : PlanErrorPayload) : PlanErrorBytes where
  request := payload.request
  status := payload.status
  planStatus := payload.planStatus
  code := payload.code
  detail := textBytes payload.detail

/-- A fence notice with its text as bytes. -/
def FenceNoticePayload.bytes (payload : FenceNoticePayload) : FenceNoticeBytes where
  boot := payload.boot
  status := payload.status
  code := payload.code
  detail := textBytes payload.detail

/-- An answer with its texts as bytes. -/
def CurrentnessResultPayload.bytes (payload : CurrentnessResultPayload) :
    CurrentnessResultBytes where
  plan := payload.plan
  currentness := payload.currentness
  changes := payload.changes.map fun entry => ⟨entry.code, textBytes entry.detail⟩

namespace ByteWriter.Wrote

variable {w : ByteWriter} {ceiling : ℕ} {word : List UInt8}

theorem hello (h : w.Wrote ceiling word) (payload : HelloPayload) :
    (encodeHelloPayload w payload).Wrote ceiling (word ++ payload.word) := by
  simp only [HelloPayload.word, ← List.append_assoc]
  exact ((((((h.id payload.publisher).id payload.boot).u64 payload.coordinatorEpoch.value).id
    payload.snapshot).generations payload.generations).u32 _).u32 _

theorem planError (h : w.Wrote ceiling word) (payload : PlanErrorPayload) :
    (encodePlanErrorPayload w payload).Wrote ceiling (word ++ payload.bytes.word) := by
  simp only [PlanErrorBytes.word, ← List.append_assoc]
  exact ((((h.id payload.request).enumeration payload.status).enumeration
    payload.planStatus).enumeration payload.code).text _

theorem fenceNotice (h : w.Wrote ceiling word) (payload : FenceNoticePayload) :
    (encodeFenceNoticePayload w payload).Wrote ceiling (word ++ payload.bytes.word) := by
  simp only [FenceNoticeBytes.word, ← List.append_assoc]
  exact (((h.id payload.boot).enumeration payload.status).enumeration payload.code).text _

theorem snapshotResponse (h : w.Wrote ceiling word) (payload : SnapshotResponsePayload) :
    (encodeSnapshotResponsePayload w payload).Wrote ceiling (word ++ payload.word) := by
  simp only [SnapshotResponsePayload.word, ← List.append_assoc]
  exact (((h.id payload.snapshot).generations payload.generations).u32 _).u32 _

theorem currentnessQuery (h : w.Wrote ceiling word) (payload : CurrentnessQueryPayload) :
    (encodeCurrentnessQueryPayload w payload).Wrote ceiling (word ++ payload.word) := by
  simp only [CurrentnessQueryPayload.word, ← List.append_assoc]
  exact ((h.id payload.plan).id payload.request).evidence payload.evidence

theorem currentnessResult (h : w.Wrote ceiling word) (payload : CurrentnessResultPayload) :
    (encodeCurrentnessResultPayload w payload).Wrote ceiling (word ++ payload.bytes.word) := by
  have hchanges : listWord ExplanationPayload.word payload.bytes.changes =
      listWord (fun entry : ExplanationEntry =>
        WireEnum.word entry.code ++ textWord (textBytes entry.detail)) payload.changes := by
    change listWord ExplanationPayload.word (payload.changes.map _) = _
    rw [listWord, listWord, List.length_map, List.flatMap_map]
    rfl
  simp only [CurrentnessResultBytes.word, hchanges, ← List.append_assoc]
  refine ((h.id payload.plan).enumeration payload.currentness).list fun entry _ w word hw => ?_
  rw [← List.append_assoc]
  exact (hw.enumeration entry.code).text _

end ByteWriter.Wrote

/-! ## What is accepted -/

theorem readHello_spells : Spells readHello
    (fun payload => payload.publisher.isValid = true ∧ payload.boot.isValid = true ∧
      payload.snapshot.isValid = true) HelloPayload.word := by
  refine .congr (.start <|
    (wireReasons.id_spells "publisher identity").field HelloPayload.publisher fun publisher _ =>
    (wireReasons.id_spells "worker boot identity").field HelloPayload.boot fun boot _ =>
    (wireReasons.strong_spells "coordinator epoch").field HelloPayload.coordinatorEpoch
      fun epoch _ =>
    (wireReasons.id_spells "snapshot identity").field HelloPayload.snapshot fun snapshot _ =>
    wireReasons.generations_spells.field HelloPayload.generations fun generations _ =>
    (ByteReader.u32_spells _).field HelloPayload.nodeCount fun nodeCount _ =>
    (ByteReader.u32_spells _).field HelloPayload.edgeCount fun edgeCount _ =>
    .done (Q := fun _ => True) fun payload => ?_) (fun payload => ?_) fun payload _ => ?_
  · cases payload
    simp only [HelloPayload.mk.injEq, true_and, and_true, and_assoc]
  · simp only [true_and, and_true]
  · simp only [HelloPayload.word, List.append_assoc, List.append_nil]

theorem readPlanError_spells : Spells readPlanError
    (fun payload => payload.request.isValid = true ∧ payload.detail.length < 2 ^ 64)
    PlanErrorBytes.word := by
  refine .congr (.start <|
    (wireReasons.id_spells "request identity").field PlanErrorBytes.request fun request _ =>
    (wireReasons.enumeration_spells "wire status" WireStatus).field PlanErrorBytes.status
      fun status _ =>
    (wireReasons.enumeration_spells "plan status" PlanStatus).field PlanErrorBytes.planStatus
      fun planStatus _ =>
    (wireReasons.enumeration_spells "diagnostic code" DiagnosticCode).field PlanErrorBytes.code
      fun code _ =>
    (ByteReader.text_spells _).field PlanErrorBytes.detail fun detail _ =>
    .done (Q := fun _ => True) fun payload => ?_) (fun payload => ?_) fun payload _ => ?_
  · cases payload
    simp only [PlanErrorBytes.mk.injEq, true_and, and_true, and_assoc]
  · simp only [WireStatus.isKnown, PlanStatus.isKnown, DiagnosticCode.isKnown, true_and, and_true]
  · simp only [PlanErrorBytes.word, List.append_assoc, List.append_nil]

theorem readFenceNotice_spells : Spells readFenceNotice
    (fun payload => payload.boot.isValid = true ∧ payload.detail.length < 2 ^ 64)
    FenceNoticeBytes.word := by
  refine .congr (.start <|
    (wireReasons.id_spells "worker boot identity").field FenceNoticeBytes.boot fun boot _ =>
    (wireReasons.enumeration_spells "wire status" WireStatus).field FenceNoticeBytes.status
      fun status _ =>
    (wireReasons.enumeration_spells "diagnostic code" DiagnosticCode).field FenceNoticeBytes.code
      fun code _ =>
    (ByteReader.text_spells _).field FenceNoticeBytes.detail fun detail _ =>
    .done (Q := fun _ => True) fun payload => ?_) (fun payload => ?_) fun payload _ => ?_
  · cases payload
    simp only [FenceNoticeBytes.mk.injEq, true_and, and_true, and_assoc]
  · simp only [WireStatus.isKnown, DiagnosticCode.isKnown, true_and, and_true]
  · simp only [FenceNoticeBytes.word, List.append_assoc, List.append_nil]

theorem readSnapshotResponse_spells : Spells readSnapshotResponse
    (fun payload => payload.snapshot.isValid = true) SnapshotResponsePayload.word := by
  refine .congr (.start <|
    (wireReasons.id_spells "snapshot identity").field SnapshotResponsePayload.snapshot
      fun snapshot _ =>
    wireReasons.generations_spells.field SnapshotResponsePayload.generations fun generations _ =>
    (ByteReader.u32_spells _).field SnapshotResponsePayload.nodeCount fun nodeCount _ =>
    (ByteReader.u32_spells _).field SnapshotResponsePayload.edgeCount fun edgeCount _ =>
    .done (Q := fun _ => True) fun payload => ?_) (fun payload => ?_) fun payload _ => ?_
  · cases payload
    simp only [SnapshotResponsePayload.mk.injEq, true_and, and_true, and_assoc]
  · simp only [and_true]
  · simp only [SnapshotResponsePayload.word, List.append_assoc, List.append_nil]

theorem readCurrentnessQuery_spells : Spells readCurrentnessQuery
    (fun payload => payload.plan.isValid = true ∧ payload.request.isValid = true ∧
      payload.evidence.snapshot.isValid = true) CurrentnessQueryPayload.word := by
  refine .congr (.start <|
    (wireReasons.id_spells "plan identity").field CurrentnessQueryPayload.plan fun plan _ =>
    (wireReasons.id_spells "request identity").field CurrentnessQueryPayload.request
      fun request _ =>
    wireReasons.evidence_spells.field CurrentnessQueryPayload.evidence fun evidence _ =>
    .done (Q := fun _ => True) fun payload => ?_) (fun payload => ?_) fun payload _ => ?_
  · cases payload
    simp only [CurrentnessQueryPayload.mk.injEq, true_and]
    grind
  · simp only [and_true]
  · simp only [CurrentnessQueryPayload.word, List.append_assoc, List.append_nil]

theorem readChange_spells : Spells readChange
    (fun entry => entry.detail.length < 2 ^ 64) ExplanationPayload.word := by
  refine .congr (.start <|
    (wireReasons.enumeration_spells "change code" DiagnosticCode).field
      ExplanationPayload.code fun code _ =>
    (ByteReader.text_spells _).field ExplanationPayload.detail fun detail _ =>
    .done (Q := fun _ => True) fun entry => ?_) (fun entry => ?_) fun entry _ => ?_
  · cases entry
    simp only [ExplanationPayload.mk.injEq, true_and, and_true]
  · simp only [DiagnosticCode.isKnown, true_and, and_true]
  · simp only [ExplanationPayload.word, List.append_nil]

theorem readCurrentnessResult_spells (limits : ResourceLimits) :
    Spells (readCurrentnessResult limits)
      (fun payload => payload.plan.isValid = true ∧
        payload.changes.length ≤ limits.maxExplanationEntries.toNat ∧
        ∀ entry ∈ payload.changes, entry.detail.length < 2 ^ 64) CurrentnessResultBytes.word := by
  refine .congr (.start <|
    (wireReasons.id_spells "plan identity").field CurrentnessResultBytes.plan fun plan _ =>
    (wireReasons.enumeration_spells "currentness" Currentness).field
      CurrentnessResultBytes.currentness fun currentness _ =>
    (readCounted_spells readChange_spells limits.maxExplanationEntries _).field
      CurrentnessResultBytes.changes fun changes _ =>
    .done (Q := fun _ => True) fun payload => ?_) (fun payload => ?_) fun payload _ => ?_
  · cases payload
    simp only [CurrentnessResultBytes.mk.injEq, true_and, and_true, and_assoc]
  · simp only [Currentness.isKnown, true_and, and_true]
  · simp only [CurrentnessResultBytes.word, List.append_assoc, List.append_nil]

/-! ## What is readable -/

/-- What a writer was given is read from what it holds exactly when it is acceptable and fits: a
writer that has overflowed holds less than the word. -/
theorem readPayload_written_iff {α : Type} {d : Decoder ByteReader WireRefusal α} {P : α → Prop}
    {word : α → List UInt8} {trailing : String} {w : ByteWriter} {ceiling : ℕ} {a : α}
    (h : Spells d P word) (hw : w.Wrote ceiling (word a)) :
    readPayload d trailing w.data = .ok a ↔ P a ∧ (word a).length ≤ ceiling := by
  rw [readPayload_eq_ok_iff h]
  refine and_congr_right fun _ => ⟨fun hdata => ?_, fun hfits => ?_⟩
  · rw [hdata]
    exact hw.length_le
  · exact (hw.data_eq (hw.overflowed_eq_false_iff.mpr hfits)).symm

/-- A control payload. -/
inductive ControlPayload
  | planError (payload : PlanErrorPayload)
  | fenceNotice (payload : FenceNoticePayload)
  | snapshotResponse (payload : SnapshotResponsePayload)
  | currentnessResult (payload : CurrentnessResultPayload)
  | hello (payload : HelloPayload)

namespace ControlPayload

/-- The identities that the decoder reads are not nil. -/
def HasIdentities : ControlPayload → Prop
  | planError payload => payload.request.isValid = true
  | fenceNotice payload => payload.boot.isValid = true
  | snapshotResponse payload => payload.snapshot.isValid = true
  | currentnessResult payload => payload.plan.isValid = true
  | hello payload => payload.publisher.isValid = true ∧ payload.boot.isValid = true ∧
      payload.snapshot.isValid = true

instance : (payload : ControlPayload) → Decidable payload.HasIdentities
  | planError _ => inferInstanceAs (Decidable (_ = true))
  | fenceNotice _ => inferInstanceAs (Decidable (_ = true))
  | snapshotResponse _ => inferInstanceAs (Decidable (_ = true))
  | currentnessResult _ => inferInstanceAs (Decidable (_ = true))
  | hello _ => inferInstanceAs (Decidable (_ = true ∧ _ = true ∧ _ = true))

/-- The word of a control payload. -/
def word : ControlPayload → List UInt8
  | planError payload => payload.bytes.word
  | fenceNotice payload => payload.bytes.word
  | snapshotResponse payload => payload.word
  | currentnessResult payload => payload.bytes.word
  | hello payload => payload.word

/-- The number of entries that the decoder counts. -/
def entries : ControlPayload → ℕ
  | currentnessResult payload => payload.changes.length
  | _ => 0

/-- The payload fits: it is within the frame ceiling of the sender, and what it counts within the
limit of the receiver. -/
structure Fits (sender receiver : ResourceLimits) (payload : ControlPayload) : Prop where
  length_le : payload.word.length ≤ sender.maxFrameBytes.toNat
  entries_le : payload.entries ≤ receiver.maxExplanationEntries.toNat

theorem fits_iff {sender receiver : ResourceLimits} {payload : ControlPayload} :
    payload.Fits sender receiver ↔ payload.word.length ≤ sender.maxFrameBytes.toNat ∧
      payload.entries ≤ receiver.maxExplanationEntries.toNat :=
  ⟨fun h => ⟨h.length_le, h.entries_le⟩, fun h => ⟨h.1, h.2⟩⟩

instance (sender receiver : ResourceLimits) (payload : ControlPayload) :
    Decidable (payload.Fits sender receiver) := decidable_of_iff' _ fits_iff

/-- **The payload is readable**: the receiver decodes the payload from what the sender encoded. -/
def IsReadable (sender receiver : ResourceLimits) : ControlPayload → Prop
  | planError payload => decodePlanErrorBytes
      (encodePlanErrorPayload (.new sender.maxFrameBytes.toNat) payload).data = .ok payload.bytes
  | fenceNotice payload => decodeFenceNoticeBytes
      (encodeFenceNoticePayload (.new sender.maxFrameBytes.toNat) payload).data = .ok payload.bytes
  | snapshotResponse payload => decodeSnapshotResponseBytes
      (encodeSnapshotResponsePayload (.new sender.maxFrameBytes.toNat) payload).data = .ok payload
  | currentnessResult payload => decodeCurrentnessResultBytes receiver
      (encodeCurrentnessResultPayload (.new sender.maxFrameBytes.toNat) payload).data =
        .ok payload.bytes
  | hello payload => decodeHelloBytes
      (encodeHelloPayload (.new sender.maxFrameBytes.toNat) payload).data = .ok payload

/-- **A payload is readable exactly when its identities are there and it fits.** -/
theorem isReadable_iff (sender receiver : ResourceLimits) (payload : ControlPayload) :
    payload.IsReadable sender receiver ↔
      payload.HasIdentities ∧ payload.Fits sender receiver := by
  have hceiling := ByteReader.ceiling_lt sender.maxFrameBytes
  have hnew := ByteWriter.Wrote.new sender.maxFrameBytes.toNat
  have hfits {payload : ControlPayload} (hentries : payload.entries = 0) :
      payload.Fits sender receiver ↔ payload.word.length ≤ sender.maxFrameBytes.toNat :=
    ⟨Fits.length_le, fun h => ⟨h, hentries ▸ Nat.zero_le _⟩⟩
  cases payload with
  | planError payload =>
    rw [IsReadable, hfits rfl]
    refine (readPayload_written_iff readPlanError_spells (hnew.planError payload)).trans ?_
    refine and_congr_left fun hlength => and_iff_left ?_
    simp only [PlanErrorBytes.word, textWord, List.length_append] at hlength
    omega
  | fenceNotice payload =>
    rw [IsReadable, hfits rfl]
    refine (readPayload_written_iff readFenceNotice_spells (hnew.fenceNotice payload)).trans ?_
    refine and_congr_left fun hlength => and_iff_left ?_
    simp only [FenceNoticeBytes.word, textWord, List.length_append] at hlength
    omega
  | snapshotResponse payload =>
    rw [IsReadable, hfits rfl]
    exact readPayload_written_iff readSnapshotResponse_spells (hnew.snapshotResponse payload)
  | currentnessResult payload =>
    refine (readPayload_written_iff (readCurrentnessResult_spells receiver)
      (hnew.currentnessResult payload)).trans ?_
    have hchanges : payload.bytes.changes.length = payload.changes.length := List.length_map _
    rw [hchanges]
    constructor
    · rintro ⟨⟨hplan, hentries, -⟩, hlength⟩
      exact ⟨hplan, hlength, hentries⟩
    · rintro ⟨hplan, hlength, hentries⟩
      refine ⟨⟨hplan, hentries, fun entry hentry => ?_⟩, hlength⟩
      -- a text that fits is shorter than the frame
      have hentryLength := length_le_listWord ExplanationPayload.word hentry
      change payload.bytes.word.length ≤ _ at hlength
      simp only [CurrentnessResultBytes.word, ExplanationPayload.word, textWord,
        List.length_append] at hentryLength hlength
      omega
  | hello payload =>
    rw [IsReadable, hfits rfl]
    exact readPayload_written_iff readHello_spells (hnew.hello payload)

end ControlPayload

/-! ## The decoders of a coordinator -/

/-- What a caller sees of a decoder: no decoder accesses anything outside its bytes. -/
def codecResult {α : Type} : Except (Stop WireRefusal) α → Except (WireStatus × String) α
  | .ok value => .ok value
  | .error (.refused refusal) => .error (refusal.status, refusal.detail.getD "")
  | .error .fault => .error (.internal, "")

/-- The decoders of the protocol. -/
def wireCodec (sha : List UInt8 → Sha256Digest) : PayloadCodec where
  decodeHello bytes := codecResult (decodeHelloBytes bytes)
  decodeQuery bytes := codecResult (decodeCurrentnessQueryBytes bytes)
  decodeRequest limits bytes := codecResult (decodeRequestBytes limits bytes)
  decodeResult limits bytes := codecResult (decodeResultBytes sha limits bytes)

theorem codecResult_eq_ok_iff {α : Type} {e : Except (Stop WireRefusal) α} {value : α} :
    codecResult e = .ok value ↔ e = .ok value := by
  match e with
  | .ok _ =>
    constructor
    · intro h
      exact congrArg Except.ok (Except.ok.inj h)
    · intro h
      exact congrArg Except.ok (Except.ok.inj h)
  | .error (.refused _) => exact iff_of_false nofun nofun
  | .error .fault => exact iff_of_false nofun nofun

section Decoded

variable {sha : List UInt8 → Sha256Digest} {limits : ResourceLimits} {bytes : List UInt8}

/-- A handshake that is decoded names its worker. -/
theorem boot_isValid_of_decodeHello {hello : HelloPayload}
    (h : (wireCodec sha).decodeHello bytes = .ok hello) : hello.boot.isValid = true :=
  ((readPayload_eq_ok_iff readHello_spells).mp (codecResult_eq_ok_iff.mp h)).1.2.1

/-- A query that is decoded names its plan. -/
theorem plan_isValid_of_decodeQuery {query : CurrentnessQueryPayload}
    (h : (wireCodec sha).decodeQuery bytes = .ok query) : query.plan.isValid = true :=
  ((readPayload_eq_ok_iff readCurrentnessQuery_spells).mp (codecResult_eq_ok_iff.mp h)).1.1

/-- A request that is decoded has an identity. -/
theorem id_isValid_of_decodeRequest {request : PlanningRequest}
    (h : (wireCodec sha).decodeRequest limits bytes = .ok request) :
    request.id.isValid = true := by
  have hdecode := codecResult_eq_ok_iff.mp h
  unfold decodeRequestBytes at hdecode
  cases hread : readPayload (readRequest limits)
    "planning request payload carries trailing bytes" bytes with
  | error stop =>
    rw [hread] at hdecode
    cases hdecode
  | ok decoded =>
    rw [hread, ok_bind] at hdecode
    have hreadable := ((readPayload_eq_ok_iff (readRequest_spells limits)).mp hread).1
    split at hdecode
    · cases hdecode
    · obtain rfl := Except.ok.inj hdecode
      exact hreadable.id_isValid

end Decoded

end PathPlanner
