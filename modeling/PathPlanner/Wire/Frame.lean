import PathPlanner.Codec.Enumerations
import PathPlanner.Core.Sha256
import PathPlanner.Wire.Outcome

/-!
# Frames

A frame is a header of fixed size and a payload. The header names the protocol and the message,
carries the identities and the length of the payload, and ends with an integrity value over the rest
of the header and the payload.

## Main definitions

* `encodeFrame`, `decodeFrame`: the frame codec
* `WireFrame.IsSendable`: the frames that are accepted under a ceiling

## Main results

* `decodeFrameBytes_eq_ok_iff`: exactly the encodings of sendable frames are accepted
* `decodeFrame_isStrict`: **the frame codec is strict**
-/

namespace PathPlanner

open Decoder

/-! ## The format -/

/-- `kWireMagicValue`. -/
def wireMagicValue : ℕ := 0x4E4C5050

/-- `kWireProtocolVersion`. -/
def wireProtocolVersion : ℕ := 1

/-- `kWireHeaderBytes`. -/
def wireHeaderBytes : ℕ := 76

/-- `kWireIntegrityBytes`. -/
def wireIntegrityBytes : ℕ := 16

/-- `kHeaderIntegrityOffset`. -/
def headerIntegrityOffset : ℕ := wireHeaderBytes - wireIntegrityBytes

/-- `kWireFlagResponse`. -/
def wireFlagResponse : UInt16 := 0x0001

/-- `kWireFlagFenced`. -/
def wireFlagFenced : UInt16 := 0x0002

/-- `kWireKnownFlags`. -/
def wireKnownFlags : UInt16 := wireFlagResponse ||| wireFlagFenced

/-- `kWireMessageNames`. -/
def wireMessageNames : List (String × ℕ) :=
  [("HELLO", 1), ("REGISTER_WORKER", 2), ("PLAN_REQUEST", 3), ("PLAN_RESULT", 4),
    ("PLAN_ERROR", 5), ("VALIDATE_CURRENTNESS", 6), ("CURRENTNESS_RESULT", 7),
    ("SNAPSHOT_REQUEST", 8), ("SNAPSHOT_RESPONSE", 9), ("FENCE_NOTICE", 10), ("ERROR", 11),
    ("SHUTDOWN_WORKER", 12)]

/-- The value of a message type. -/
def WireMessage.value : WireMessage → ℕ
  | .hello => 1
  | .registerWorker => 2
  | .planRequest => 3
  | .planResult => 4
  | .planError => 5
  | .validateCurrentness => 6
  | .currentnessResult => 7
  | .snapshotRequest => 8
  | .snapshotResponse => 9
  | .fenceNotice => 10
  | .error => 11
  | .shutdownWorker => 12

instance : WireEnum WireMessage where
  names := wireMessageNames
  value := WireMessage.value
  ofValue
    | 1 => .hello
    | 2 => .registerWorker
    | 3 => .planRequest
    | 4 => .planResult
    | 5 => .planError
    | 6 => .validateCurrentness
    | 7 => .currentnessResult
    | 8 => .snapshotRequest
    | 9 => .snapshotResponse
    | 10 => .fenceNotice
    | 11 => .error
    | _ => .shutdownWorker
  value_lt e := by cases e <;> decide
  value_ofValue := by decide
  ofValue_value e _ := by cases e <;> rfl

@[simp] theorem WireMessage.isKnown (e : WireMessage) : WireEnum.IsKnown e := by
  cases e <;> decide

/-- The header of a frame, up to the integrity value, in a writer. -/
def WireFrame.writeHeader (frame : WireFrame) (writer : ByteWriter) : ByteWriter :=
  let writer := writer.u32 wireMagicValue
  let writer := writer.u16 wireProtocolVersion
  let writer := writer.u16 frame.flags.toNat
  let writer := writer.u32 (WireEnum.value frame.type)
  let writer := writer.u64 frame.coordinatorEpoch.value
  let writer := writer.u64 frame.sequence.toNat
  let writer := writer.id frame.workerBoot
  let writer := writer.id frame.request
  -- the length is cast to 32 bits
  let writer := writer.u32 (frame.payload.length % 2 ^ 32)
  writer.u32 0

/-- `EncodeFrame`, with `sha` for `Sha256::Hash`. -/
def encodeFrame (sha : List UInt8 → Sha256Digest) (frame : WireFrame) : List UInt8 :=
  let header := (frame.writeHeader (.new wireHeaderBytes)).data
  let digest := sha (header ++ frame.payload)
  header ++ digest.bytes.toList.take wireIntegrityBytes ++ frame.payload

/-! ## The decoder -/

/-- What the header of a frame says. -/
structure FrameHeader where
  flags : UInt16
  type : WireMessage
  coordinatorEpoch : CoordinatorEpoch
  sequence : UInt64
  workerBoot : WorkerBootId
  request : PlanningRequestId
  payloadBytes : ℕ

/-- The header checks of `DecodeFrame`. -/
def readFrameHeader (maxFrameBytes : UInt32) : Decoder ByteReader WireRefusal FrameHeader := do
  let magic ← ByteReader.uint 4 (malformed "frame magic mismatch")
  ensure (magic = wireMagicValue) (malformed "frame magic mismatch")
  let unsupported : WireRefusal :=
    ⟨.versionMismatch, some "unsupported wire protocol version", by decide⟩
  let protocol ← ByteReader.uint 2 unsupported
  ensure (protocol = wireProtocolVersion) unsupported
  let flags ← ByteReader.u16 (malformed "unknown frame flag bits")
  ensure (flags &&& ~~~wireKnownFlags = 0) (malformed "unknown frame flag bits")
  let unknown : WireRefusal := ⟨.unknownMessage, some "unknown message type", by decide⟩
  let type ← ByteReader.enumeration WireMessage unknown fun _ => unknown
  let coordinatorEpoch ←
    ByteReader.quantity 8 (malformed "frame epoch or sequence is truncated")
  let sequence ← ByteReader.u64 (malformed "frame epoch or sequence is truncated")
  let workerBoot ← ByteReader.rawId (malformed "frame worker boot identity is truncated")
  let request ← ByteReader.rawId (malformed "frame request identity is truncated")
  let payloadBytes ← ByteReader.uint 4 (malformed "frame length fields are truncated")
  let reserved ← ByteReader.uint 4 (malformed "frame length fields are truncated")
  ensure (reserved = 0) (malformed "reserved header field must be zero")
  ensure (payloadBytes ≤ maxFrameBytes.toNat)
    ⟨.tooLarge, some "frame payload exceeds the configured ceiling", by decide⟩
  pure { flags, type, coordinatorEpoch, sequence, workerBoot, request, payloadBytes }

/-- The frame that `DecodeFrame` puts out. -/
def decodeFrameBytes (sha : List UInt8 → Sha256Digest) (maxFrameBytes : UInt32)
    (bytes : List UInt8) : Except (Stop WireRefusal) WireFrame := do
  if bytes.length < wireHeaderBytes then
    throw (.refused (malformed "frame shorter than the fixed header"))
  let (header, _) ← (readFrameHeader maxFrameBytes).run (.new bytes)
  let declaredSize := wireHeaderBytes + header.payloadBytes
  if bytes.length < declaredSize then
    throw (.refused (malformed "frame is shorter than the declared payload size"))
  if bytes.length > declaredSize then
    throw (.refused ⟨.trailingBytes, some "frame carries trailing bytes", trailingBytes_ne_ok⟩)
  let checked ← subspan bytes 0 headerIntegrityOffset
  let payload ← subspan bytes wireHeaderBytes header.payloadBytes
  let integrity ← subspan bytes headerIntegrityOffset wireIntegrityBytes
  if integrity ≠ (sha (checked ++ payload)).bytes.toList.take wireIntegrityBytes then
    throw (.refused ⟨.integrityMismatch, some "frame integrity check failed", by decide⟩)
  let content ← subspan bytes wireHeaderBytes (bytes.length - wireHeaderBytes)
  pure {
    flags := header.flags
    type := header.type
    coordinatorEpoch := header.coordinatorEpoch
    sequence := header.sequence
    workerBoot := header.workerBoot
    request := header.request
    payload := content }

/-- `DecodeFrame`: none when it accesses anything outside the bytes. -/
def decodeFrame (sha : List UInt8 → Sha256Digest) (maxFrameBytes : UInt32) (bytes : List UInt8)
    (detail : String) (out : WireFrame) : Option (WireOutcome WireFrame) :=
  wireOutcome detail out (decodeFrameBytes sha maxFrameBytes bytes)

/-! ## What is accepted -/

/-- The frames that are accepted under a ceiling: the flag bits are known and the payload is not too
long. Every `WireMessage` is a known message type. -/
structure WireFrame.IsSendable (maxFrameBytes : UInt32) (frame : WireFrame) : Prop where
  flags_known : frame.flags &&& ~~~wireKnownFlags = 0
  payload_le : frame.payload.length ≤ maxFrameBytes.toNat

/-- The word of a header. -/
def FrameHeader.word (header : FrameHeader) : List UInt8 :=
  littleEndian 4 wireMagicValue ++ littleEndian 2 wireProtocolVersion ++
    littleEndian 2 header.flags.toNat ++ WireEnum.word header.type ++
    littleEndian 8 header.coordinatorEpoch.value ++ littleEndian 8 header.sequence.toNat ++
    header.workerBoot.word ++ header.request.word ++ littleEndian 4 header.payloadBytes ++
    littleEndian 4 0

/-- The header of a frame. -/
def WireFrame.header (frame : WireFrame) : FrameHeader where
  flags := frame.flags
  type := frame.type
  coordinatorEpoch := frame.coordinatorEpoch
  sequence := frame.sequence
  workerBoot := frame.workerBoot
  request := frame.request
  payloadBytes := frame.payload.length % 2 ^ 32

@[simp] theorem FrameHeader.length_word (header : FrameHeader) :
    header.word.length = headerIntegrityOffset := by
  simp [FrameHeader.word, WireEnum.word, headerIntegrityOffset, wireHeaderBytes, wireIntegrityBytes]

/-- The header fits the space that is reserved for it. -/
theorem WireFrame.data_writeHeader (frame : WireFrame) :
    (frame.writeHeader (.new wireHeaderBytes)).data = frame.header.word := by
  have hwrote : (frame.writeHeader (.new wireHeaderBytes)).Wrote wireHeaderBytes
      frame.header.word :=
    (((((((((ByteWriter.Wrote.new wireHeaderBytes).u32 _).u16 _).u16 _).u32 _).u64 _).u64 _).id
      _).id _).u32 _ |>.u32 _
  refine hwrote.data_eq (hwrote.overflowed_eq_false_iff.mpr ?_)
  rw [FrameHeader.length_word]
  decide

theorem encodeFrame_eq (sha : List UInt8 → Sha256Digest) (frame : WireFrame) :
    encodeFrame sha frame = frame.header.word ++
      (sha (frame.header.word ++ frame.payload)).word.take wireIntegrityBytes ++
      frame.payload := by
  unfold encodeFrame
  rw [frame.data_writeHeader]
  rfl

theorem readFrameHeader_spells (maxFrameBytes : UInt32) :
    Spells (readFrameHeader maxFrameBytes)
      (fun header => header.flags &&& ~~~wireKnownFlags = 0 ∧
        header.payloadBytes ≤ maxFrameBytes.toNat) FrameHeader.word := by
  refine .congr (.start <|
    .literal wireMagicValue (ByteReader.uint_spells 4 _) (by decide) (fun _ => Iff.rfl) _ <|
    .literal wireProtocolVersion (ByteReader.uint_spells 2 _) (by decide) (fun _ => Iff.rfl) _ <|
    (ByteReader.u16_spells _).field FrameHeader.flags fun flags _ =>
    .ensure (fun header : FrameHeader => header.flags &&& ~~~wireKnownFlags = 0)
      (fun header h => by rw [h.2]) fun _ =>
    (ByteReader.enumeration_spells _ _).field FrameHeader.type fun type _ =>
    (ByteReader.quantity_spells (by norm_num) _).field FrameHeader.coordinatorEpoch fun epoch _ =>
    (ByteReader.u64_spells _).field FrameHeader.sequence fun sequence _ =>
    (ByteReader.rawId_spells _).field FrameHeader.workerBoot fun workerBoot _ =>
    (ByteReader.rawId_spells _).field FrameHeader.request fun request _ =>
    (ByteReader.uint_spells 4 _).field FrameHeader.payloadBytes fun payloadBytes _ =>
    .literal 0 (ByteReader.uint_spells 4 _) (by decide) (fun _ => Iff.rfl) _ <|
    .ensure (fun header : FrameHeader => header.payloadBytes ≤ maxFrameBytes.toNat)
      (fun header h => by rw [h.2]) fun _ =>
    .done (Q := fun _ => True) fun header => ?_) (fun header => ?_) fun header _ => ?_
  · cases header
    simp only [FrameHeader.mk.injEq, true_and, and_true, and_assoc]
  · have hsmall := maxFrameBytes.toNat_lt
    constructor
    · rintro ⟨hflags, hpayload⟩
      exact ⟨trivial, hflags, header.type.isKnown, trivial, trivial, trivial, trivial, by omega,
        hpayload, trivial⟩
    · rintro ⟨-, hflags, -, -, -, -, -, -, hpayload, -⟩
      exact ⟨hflags, hpayload⟩
  · simp only [FrameHeader.word, List.append_assoc, List.append_nil]

/-! ## The codec -/

section Codec

variable (sha : List UInt8 → Sha256Digest) (maxFrameBytes : UInt32)

theorem length_encodeFrame (frame : WireFrame) :
    (encodeFrame sha frame).length = wireHeaderBytes + frame.payload.length := by
  rw [encodeFrame_eq, List.length_append, List.length_append, FrameHeader.length_word,
    List.length_take, Sha256Digest.length_word]
  rfl

/-- The parts of an encoded frame. -/
theorem take_drop_encodeFrame (frame : WireFrame) :
    (encodeFrame sha frame).take headerIntegrityOffset = frame.header.word ∧
      ((encodeFrame sha frame).drop headerIntegrityOffset).take wireIntegrityBytes =
        (sha (frame.header.word ++ frame.payload)).word.take wireIntegrityBytes ∧
      (encodeFrame sha frame).drop wireHeaderBytes = frame.payload := by
  have hheader := frame.header.length_word
  have hintegrity : ((sha (frame.header.word ++ frame.payload)).word.take wireIntegrityBytes).length =
      wireIntegrityBytes := by
    rw [List.length_take, Sha256Digest.length_word]
    rfl
  rw [show wireHeaderBytes = headerIntegrityOffset + wireIntegrityBytes from rfl, ← List.drop_drop,
    encodeFrame_eq]
  simp only [List.append_assoc]
  rw [List.take_left' hheader, List.drop_left' hheader, List.take_left' hintegrity,
    List.drop_left' hintegrity]
  exact ⟨rfl, rfl, rfl⟩

/-- **What can happen**: bytes are refused for a reason, or they are the encoding of the sendable
frame that is put out. -/
theorem decodeFrameBytes_cases (bytes : List UInt8) :
    (∃ refusal, decodeFrameBytes sha maxFrameBytes bytes = .error (.refused refusal)) ∨
      ∃ frame : WireFrame, decodeFrameBytes sha maxFrameBytes bytes = .ok frame ∧
        frame.IsSendable maxFrameBytes ∧ encodeFrame sha frame = bytes := by
  unfold decodeFrameBytes
  by_cases hshort : bytes.length < wireHeaderBytes
  · rw [if_pos hshort]
    exact Or.inl ⟨_, rfl⟩
  rw [if_neg hshort]
  -- the header
  cases hheader : (readFrameHeader maxFrameBytes).run (.new bytes) with
  | error stop =>
    cases stop with
    | fault => exact absurd hheader ((readFrameHeader_spells maxFrameBytes).safe _)
    | refused refusal => exact Or.inl ⟨refusal, rfl⟩
  | ok header =>
    obtain ⟨header, reader⟩ := header
    simp only [ok_bind]
    obtain ⟨⟨hflags, hpayload⟩, hprefix, -⟩ :=
      ((readFrameHeader_spells maxFrameBytes).run_iff _ _ _).mp hheader
    rw [ByteReader.rest_new] at hprefix
    have htake : bytes.take headerIntegrityOffset = header.word := by
      rw [← header.length_word]
      exact (List.prefix_iff_eq_take.mp hprefix).symm
    -- the size
    by_cases hsmall : bytes.length < wireHeaderBytes + header.payloadBytes
    · rw [if_pos hsmall]
      exact Or.inl ⟨_, rfl⟩
    rw [if_neg hsmall]
    by_cases hlarge : bytes.length > wireHeaderBytes + header.payloadBytes
    · rw [if_pos hlarge]
      exact Or.inl ⟨_, rfl⟩
    have hsize : wireHeaderBytes + header.payloadBytes = bytes.length := by omega
    have hbytes : wireHeaderBytes = headerIntegrityOffset + wireIntegrityBytes := rfl
    have hcontent : bytes.length - wireHeaderBytes = header.payloadBytes := by omega
    have hdrop : (bytes.drop wireHeaderBytes).take header.payloadBytes =
        bytes.drop wireHeaderBytes := by
      rw [List.take_of_length_le]
      rw [List.length_drop, hcontent]
    simp only [if_neg hlarge, subspan_eq_ok (show 0 + headerIntegrityOffset ≤ bytes.length by omega),
      subspan_eq_ok hsize.le, subspan_eq_ok (show headerIntegrityOffset + wireIntegrityBytes ≤
        bytes.length by omega), hcontent, ok_bind, List.drop_zero, hdrop, htake]
    -- the integrity value
    by_cases hintegrity : (bytes.drop headerIntegrityOffset).take wireIntegrityBytes ≠
        (sha (header.word ++ bytes.drop wireHeaderBytes)).bytes.toList.take wireIntegrityBytes
    · rw [if_pos hintegrity]
      exact Or.inl ⟨_, rfl⟩
    rw [if_neg hintegrity]
    refine Or.inr ⟨_, rfl, ⟨hflags, ?_⟩, ?_⟩
    · rw [List.length_drop, hcontent]
      exact hpayload
    · have hsmall := maxFrameBytes.toNat_lt
      have hheaderEq : WireFrame.header {
          flags := header.flags
          type := header.type
          coordinatorEpoch := header.coordinatorEpoch
          sequence := header.sequence
          workerBoot := header.workerBoot
          request := header.request
          payload := bytes.drop wireHeaderBytes } = header := by
        unfold WireFrame.header
        simp only [List.length_drop, hcontent]
        rw [Nat.mod_eq_of_lt (by omega)]
      have hintegrity := not_not.mp hintegrity
      rw [encodeFrame_eq, hheaderEq]
      change header.word ++ (sha (header.word ++ bytes.drop wireHeaderBytes)).bytes.toList.take
        wireIntegrityBytes ++ bytes.drop wireHeaderBytes = bytes
      rw [← hintegrity, ← htake, hbytes, ← List.drop_drop, List.append_assoc,
        List.take_append_drop, List.take_append_drop]

/-- The encoding of a sendable frame is accepted. -/
theorem decodeFrameBytes_encodeFrame {frame : WireFrame} (h : frame.IsSendable maxFrameBytes) :
    decodeFrameBytes sha maxFrameBytes (encodeFrame sha frame) = .ok frame := by
  have hsmall := maxFrameBytes.toNat_lt
  have hpayload := h.payload_le
  have hpayloadBytes : frame.header.payloadBytes = frame.payload.length :=
    Nat.mod_eq_of_lt (by omega)
  obtain ⟨hheaderBytes, hintegrityBytes, hpayloadWord⟩ := take_drop_encodeFrame sha frame
  have hsize := length_encodeFrame sha frame
  have hheader := ((readFrameHeader_spells maxFrameBytes).run_iff
    (.new (encodeFrame sha frame)) frame.header _).mpr
    ⟨⟨h.flags_known, by rwa [hpayloadBytes]⟩, ?_, rfl⟩
  · have hbytes : wireHeaderBytes = headerIntegrityOffset + wireIntegrityBytes := rfl
    have hcontent : (encodeFrame sha frame).length - wireHeaderBytes = frame.payload.length := by
      omega
    unfold decodeFrameBytes
    rw [if_neg (by omega), hheader]
    simp only [ok_bind, hpayloadBytes]
    rw [if_neg (by omega), if_neg (by omega)]
    simp only [subspan_eq_ok (show 0 + headerIntegrityOffset ≤ (encodeFrame sha frame).length by
      omega), subspan_eq_ok hsize.ge, subspan_eq_ok (show headerIntegrityOffset +
      wireIntegrityBytes ≤ (encodeFrame sha frame).length by omega), hcontent, ok_bind,
      List.drop_zero, hheaderBytes, hintegrityBytes, hpayloadWord, List.take_length]
    rw [Sha256Digest.word, if_neg (not_not.mpr rfl)]
    rfl
  · rw [ByteReader.rest_new, ← hheaderBytes]
    exact List.take_prefix _ _

/-- **Exactly the encodings of sendable frames** are accepted, as these frames. -/
theorem decodeFrameBytes_eq_ok_iff {bytes : List UInt8} {frame : WireFrame} :
    decodeFrameBytes sha maxFrameBytes bytes = .ok frame ↔
      frame.IsSendable maxFrameBytes ∧ encodeFrame sha frame = bytes := by
  constructor
  · intro h
    rcases decodeFrameBytes_cases sha maxFrameBytes bytes with ⟨refusal, hrefusal⟩ | ⟨_, hok, hall⟩
    · rw [hrefusal] at h
      cases h
    · obtain rfl := Except.ok.inj (hok.symm.trans h)
      exact hall
  · rintro ⟨hsendable, rfl⟩
    exact decodeFrameBytes_encodeFrame sha maxFrameBytes hsendable

/-- Nothing outside the bytes is accessed. -/
theorem decodeFrameBytes_ne_fault (bytes : List UInt8) :
    decodeFrameBytes sha maxFrameBytes bytes ≠ .error .fault := by
  intro h
  rcases decodeFrameBytes_cases sha maxFrameBytes bytes with ⟨refusal, hrefusal⟩ | ⟨_, hok, -⟩
  · rw [hrefusal] at h
    cases h
  · rw [hok] at h
    cases h

/-- **The frame codec is strict**: the encoding of every sendable frame is accepted as that frame,
nothing else is accepted, no access leaves the bytes, and a rejection leaves the output alone. -/
theorem decodeFrame_isStrict :
    IsStrict (WireFrame.IsSendable maxFrameBytes) (fun frame bytes => encodeFrame sha frame = bytes)
      (decodeFrame sha maxFrameBytes) :=
  isStrict_wireOutcome (fun _ _ => existsUnique_eq')
    (fun _ _ => decodeFrameBytes_eq_ok_iff sha maxFrameBytes)
    (decodeFrameBytes_ne_fault sha maxFrameBytes)

end Codec

end PathPlanner
