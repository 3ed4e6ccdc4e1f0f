import PathPlanner.Wire.Control
import PathPlanner.Wire.Frame

/-!
# Frames on a stream

A connection is a stream of bytes. A frame is read in two parts, the header and the payload whose
length the header declares, and either part may be cut short: the beginning of a frame is never taken
for a frame.

## Main definitions

* `readFrame`: what a reader finds in the bytes that have arrived
* `SentFrame.received`: a frame of the coordinator on the wire

## Main results

* `eq_append_of_readFrame`: **a frame that is read** is what the bytes begin with
* `readFrame_of_prefix`: **in the beginning of a frame** a reader finds that frame, if anything
-/

namespace PathPlanner

open ByteReader

/-! ## Reading -/

/-- The place of the payload length in a header. -/
def payloadLengthOffset : ℕ := 4 + 2 + 2 + 4 + 8 + 8 + 8 + 16

/-- What a reader finds: it has to wait for more, or it rejects what it has read, or there is a frame;
in the last two cases with the bytes that are left. -/
inductive FrameRead
  | incomplete
  | rejected (detail : String) (rest : List UInt8)
  | frame (frame : WireFrame) (rest : List UInt8)

/-- `ReadFrame`, on the bytes that have arrived. -/
def readFrame (sha : List UInt8 → Sha256Digest) (maxFrameBytes : UInt32) (bytes : List UInt8) :
    FrameRead :=
  if bytes.length < wireHeaderBytes then .incomplete
  else
    let payloadBytes := ofLittleEndian ((bytes.drop payloadLengthOffset).take 4)
    if payloadBytes > maxFrameBytes.toNat then
      .rejected "declared payload length exceeds the configured frame ceiling"
        (bytes.drop wireHeaderBytes)
    else
      let size := wireHeaderBytes + payloadBytes
      if bytes.length < size then .incomplete
      else
        match codecResult (decodeFrameBytes sha maxFrameBytes (bytes.take size)) with
        | .ok frame => .frame frame (bytes.drop size)
        | .error (_, detail) => .rejected ("frame rejected: " ++ detail) (bytes.drop size)

/-- The frames that a header can describe: the flag bits are known and the length of the payload has
32 bits. -/
structure WireFrame.IsDescribable (frame : WireFrame) : Prop where
  flags_known : frame.flags &&& ~~~wireKnownFlags = 0
  payload_lt : frame.payload.length < 2 ^ 32

section Read

variable (sha : List UInt8 → Sha256Digest) (maxFrameBytes : UInt32) {frame : WireFrame}

/-- The header of a frame declares the length of its payload. -/
theorem payloadLength_encodeFrame (h : frame.payload.length < 2 ^ 32) :
    ofLittleEndian (((encodeFrame sha frame).drop payloadLengthOffset).take 4) =
      frame.payload.length := by
  have hboot : frame.workerBoot.word.length = 8 := FixedId.length_word _
  have hrequest : frame.request.word.length = 16 := FixedId.length_word _
  have hsplit : encodeFrame sha frame =
      (littleEndian 4 wireMagicValue ++ littleEndian 2 wireProtocolVersion ++
        littleEndian 2 frame.flags.toNat ++ WireEnum.word frame.type ++
        littleEndian 8 frame.coordinatorEpoch.value ++ littleEndian 8 frame.sequence.toNat ++
        frame.workerBoot.word ++ frame.request.word) ++
      (littleEndian 4 frame.header.payloadBytes ++ (littleEndian 4 0 ++
        ((sha (frame.header.word ++ frame.payload)).word.take wireIntegrityBytes ++
          frame.payload))) := by
    rw [encodeFrame_eq]
    simp only [FrameHeader.word, WireFrame.header, List.append_assoc]
  have hoffset : (littleEndian 4 wireMagicValue ++ littleEndian 2 wireProtocolVersion ++
      littleEndian 2 frame.flags.toNat ++ WireEnum.word frame.type ++
      littleEndian 8 frame.coordinatorEpoch.value ++ littleEndian 8 frame.sequence.toNat ++
      frame.workerBoot.word ++ frame.request.word).length = payloadLengthOffset := by
    simp only [List.length_append, length_littleEndian, WireEnum.word, hboot, hrequest]
    rfl
  have hlength : frame.header.payloadBytes = frame.payload.length := Nat.mod_eq_of_lt h
  rw [hsplit, List.drop_left' hoffset, List.take_left' (length_littleEndian 4 _), hlength,
    ofLittleEndian_littleEndian (by omega)]

/-- **In the beginning of a frame** a reader waits for more, or rejects what it has read, or finds the
frame when it is complete. -/
theorem readFrame_of_prefix {bytes : List UInt8} (h : frame.IsDescribable)
    (hstarts : bytes <+: encodeFrame sha frame) :
    readFrame sha maxFrameBytes bytes = .incomplete ∨
      (∃ detail rest, readFrame sha maxFrameBytes bytes = .rejected detail rest) ∨
      bytes = encodeFrame sha frame ∧ readFrame sha maxFrameBytes bytes = .frame frame [] := by
  unfold readFrame
  by_cases hshort : bytes.length < wireHeaderBytes
  · rw [if_pos hshort]
    exact Or.inl rfl
  rw [if_neg hshort]
  have hlength : ofLittleEndian ((bytes.drop payloadLengthOffset).take 4) =
      frame.payload.length := by
    obtain ⟨rest, hrest⟩ := hstarts
    have hroom : payloadLengthOffset + 4 ≤ bytes.length := (not_lt.mp hshort).trans' (by decide)
    rw [← payloadLength_encodeFrame sha h.payload_lt, ← hrest,
      List.drop_append_of_le_length (by omega),
      List.take_append_of_le_length (by rw [List.length_drop]; omega)]
  dsimp only
  rw [hlength]
  by_cases hlarge : frame.payload.length > maxFrameBytes.toNat
  · rw [if_pos hlarge]
    exact Or.inr (Or.inl ⟨_, _, rfl⟩)
  rw [if_neg hlarge]
  by_cases hcut : bytes.length < wireHeaderBytes + frame.payload.length
  · rw [if_pos hcut]
    exact Or.inl rfl
  -- the whole frame has arrived
  rw [if_neg hcut]
  have hsize := length_encodeFrame sha frame
  have hwhole : bytes = encodeFrame sha frame :=
    hstarts.eq_of_length_le (by omega)
  rw [hwhole, ← hsize, List.take_length, List.drop_length]
  rw [decodeFrameBytes_encodeFrame sha maxFrameBytes ⟨h.flags_known, not_lt.mp hlarge⟩]
  exact Or.inr (Or.inr ⟨rfl, rfl⟩)

/-- There is no frame without any bytes. -/
theorem readFrame_nil : readFrame sha maxFrameBytes [] = .incomplete :=
  if_pos (by decide)

/-- **A frame that is read** is what the bytes begin with. -/
theorem eq_append_of_readFrame {bytes rest : List UInt8}
    (h : readFrame sha maxFrameBytes bytes = .frame frame rest) :
    frame.IsSendable maxFrameBytes ∧ bytes = encodeFrame sha frame ++ rest := by
  unfold readFrame at h
  dsimp only at h
  split_ifs at h
  split at h
  · next found hdecoded =>
    obtain ⟨rfl, rfl⟩ := FrameRead.frame.inj h
    obtain ⟨hsendable, hword⟩ :=
      (decodeFrameBytes_eq_ok_iff sha maxFrameBytes).mp (codecResult_eq_ok_iff.mp hdecoded)
    exact ⟨hsendable, by rw [hword, List.take_append_drop]⟩
  · cases h

/-- A sendable frame is read. -/
theorem readFrame_encodeFrame (h : frame.IsSendable maxFrameBytes) :
    readFrame sha maxFrameBytes (encodeFrame sha frame) = .frame frame [] := by
  have hsmall := maxFrameBytes.toNat_lt
  have hpayload := h.payload_le
  have hsize := length_encodeFrame sha frame
  unfold readFrame
  dsimp only
  rw [payloadLength_encodeFrame sha (by omega), if_neg (by omega), if_neg (by omega),
    if_neg (by omega), ← hsize, List.take_length, List.drop_length,
    decodeFrameBytes_encodeFrame sha maxFrameBytes h]
  rfl

end Read

/-! ## Payloads that do not fit -/

namespace ByteWriter

/-- The writer has been written to: its bytes are still there, and nothing follows them if it had
overflowed. -/
structure Extends (w w' : ByteWriter) : Prop where
  starts : w.data <+: w'.data
  stuck : w.overflowed = true → w'.overflowed = true ∧ w'.data = w.data

namespace Extends

variable {w w' w'' : ByteWriter}

theorem refl (w : ByteWriter) : w.Extends w := ⟨List.prefix_refl _, fun h => ⟨h, rfl⟩⟩

theorem trans (h : w.Extends w') (h' : w'.Extends w'') : w.Extends w'' where
  starts := h.starts.trans h'.starts
  stuck hover := by
    obtain ⟨hover', hdata⟩ := h.stuck hover
    obtain ⟨hover'', hdata'⟩ := h'.stuck hover'
    exact ⟨hover'', hdata'.trans hdata⟩

theorem put (h : w.Extends w') (value : List UInt8) : w.Extends (w'.put value) := by
  refine h.trans ?_
  unfold ByteWriter.put
  split_ifs with hover
  · exact .refl w'
  · exact ⟨List.prefix_refl _, fun hnot => absurd hnot hover⟩
  · exact ⟨List.prefix_append _ _, fun hnot => absurd hnot hover⟩

theorem putByte (h : w.Extends w') (value : UInt8) : w.Extends (w'.putByte value) := by
  refine h.trans ?_
  unfold ByteWriter.putByte
  split_ifs with hover
  · exact .refl w'
  · exact ⟨List.prefix_refl _, fun hnot => absurd hnot hover⟩
  · exact ⟨List.prefix_append _ _, fun hnot => absurd hnot hover⟩

theorem foldl {α : Type} {f : ByteWriter → α → ByteWriter}
    (hf : ∀ w' a, w.Extends w' → w.Extends (f w' a)) (h : w.Extends w') (as : List α) :
    w.Extends (as.foldl f w') := by
  induction as generalizing w' with
  | nil => exact h
  | cons a as ih => exact ih (hf w' a h)

theorem putLittleEndian (h : w.Extends w') (count value : ℕ) :
    w.Extends (w'.putLittleEndian count value) :=
  h.foldl (fun _ _ hw => hw.putByte _) _

theorem id {Tag : Type} {n : ℕ} (h : w.Extends w') (value : FixedId Tag n) :
    w.Extends (w'.id value) := h.put _

theorem u32 (h : w.Extends w') (value : ℕ) : w.Extends (w'.u32 value) := h.putLittleEndian 4 value

theorem u64 (h : w.Extends w') (value : ℕ) : w.Extends (w'.u64 value) := h.putLittleEndian 8 value

theorem evidence (h : w.Extends w') (e : EvidenceVector) : w.Extends (e.encode w') :=
  ((((((((((h.id e.snapshot).u64 _).u64 _).u64 _).u64 _).u64 _).u64 _).u64 _).u64 _).u32 _).u64 _

theorem varU64 (h : w.Extends w') (value : ℕ) : w.Extends (w'.varU64 value) := by
  unfold ByteWriter.varU64
  generalize 9 = rounds
  induction rounds generalizing value w' with
  | zero => exact h.putByte _
  | succ rounds ih =>
    rw [ByteWriter.putGroups]
    split_ifs
    · exact ih (h.putByte _) _
    · exact h.putByte _

/-- **An identity that is written first** is what is read first, or nothing can be read. -/
theorem id_eq {Tag : Type} {n ceiling : ℕ} {value read : FixedId Tag n} {rest : List UInt8}
    (h : ((ByteWriter.new ceiling).id value).Extends w) (hread : w.data = read.word ++ rest) :
    read = value := by
  have hwrote := (ByteWriter.Wrote.new ceiling).id value
  rw [List.nil_append] at hwrote
  have hlength : value.word.length = read.word.length :=
    value.length_word.trans read.length_word.symm
  by_cases hfits : value.word.length ≤ ceiling
  · have hstarts := h.starts
    rw [hwrote.data_eq (hwrote.overflowed_eq_false_iff.mpr hfits), hread] at hstarts
    have hsame := List.prefix_of_prefix_length_le hstarts (List.prefix_append _ _) hlength.le
    exact FixedId.word_injective (hsame.eq_of_length hlength).symm
  · -- nothing is written at all
    have hover : ((ByteWriter.new ceiling).id value).overflowed = true :=
      hwrote.overflowed_iff.mpr (not_le.mp hfits)
    have hempty : ((ByteWriter.new ceiling).id value).data = [] := by
      unfold ByteWriter.id ByteWriter.fixedBytes ByteWriter.put
      rw [if_neg (show ¬ (ByteWriter.new ceiling).overflowed = true from Bool.false_ne_true),
        if_pos (show value.bytes.toList.length > (ByteWriter.new ceiling).ceiling -
          (ByteWriter.new ceiling).data.length from not_le.mp hfits)]
      rfl
    have hnone : read.word ++ rest = [] := by
      rw [← hread, (h.stuck hover).2, hempty]
    have hshort := congrArg List.length (List.append_eq_nil_iff.mp hnone).1
    rw [← hlength, List.length_nil] at hshort
    exact absurd (hshort.trans_le (Nat.zero_le ceiling)) hfits

end Extends

end ByteWriter

/-- A query is read exactly when its identities are there and it fits. -/
theorem decodeQuery_written_iff {ceiling : ℕ} {payload : CurrentnessQueryPayload} :
    decodeCurrentnessQueryBytes (encodeCurrentnessQueryPayload (.new ceiling) payload).data =
        .ok payload ↔
      (payload.plan.isValid = true ∧ payload.request.isValid = true ∧
        payload.evidence.snapshot.isValid = true) ∧ payload.word.length ≤ ceiling :=
  readPayload_written_iff readCurrentnessQuery_spells
    ((ByteWriter.Wrote.new ceiling).currentnessQuery payload)

/-- **A query that is read** asks about the plan that was written. -/
theorem plan_of_decodeQuery {ceiling : ℕ} {payload query : CurrentnessQueryPayload}
    (h : decodeCurrentnessQueryBytes
      (encodeCurrentnessQueryPayload (.new ceiling) payload).data = .ok query) :
    query.plan = payload.plan := by
  have hword := ((readPayload_eq_ok_iff readCurrentnessQuery_spells).mp h).2
  have hextends : ((ByteWriter.new ceiling).id payload.plan).Extends
      (encodeCurrentnessQueryPayload (.new ceiling) payload) :=
    ((ByteWriter.Extends.refl _).id payload.request).evidence payload.evidence
  have hread : (encodeCurrentnessQueryPayload (.new ceiling) payload).data =
      query.plan.word ++ (query.request.word ++ query.evidence.word) := by
    rw [← hword, CurrentnessQueryPayload.word, List.append_assoc]
  exact hextends.id_eq hread

/-- **An answer that is read** is about the plan that was written. -/
theorem plan_of_decodeResult {limits : ResourceLimits} {ceiling : ℕ}
    {payload : CurrentnessResultPayload} {result : CurrentnessResultBytes}
    (h : decodeCurrentnessResultBytes limits
      (encodeCurrentnessResultPayload (.new ceiling) payload).data = .ok result) :
    result.plan = payload.plan := by
  have hword := ((readPayload_eq_ok_iff (readCurrentnessResult_spells limits)).mp h).2
  have hextends : ((ByteWriter.new ceiling).id payload.plan).Extends
      (encodeCurrentnessResultPayload (.new ceiling) payload) :=
    (((ByteWriter.Extends.refl _).u32 _).varU64 _).foldl
      (fun _ _ hw => ((hw.u32 _).varU64 _).put _) _
  have hread : (encodeCurrentnessResultPayload (.new ceiling) payload).data = result.plan.word ++
      (WireEnum.word result.currentness ++ listWord ExplanationPayload.word result.changes) := by
    rw [← hword, CurrentnessResultBytes.word, List.append_assoc]
  exact hextends.id_eq hread

/-! ## Frames of a coordinator -/

/-- The frame as it is received, encoded under the limits of the coordinator. -/
def SentFrame.received (limits : ResourceLimits) (frame : SentFrame) : WireFrame :=
  let writer := ByteWriter.new limits.maxFrameBytes.toNat
  let (type, flags, payload) : WireMessage × UInt16 × List UInt8 :=
    match frame.message with
    | .planRequest payload => (.planRequest, 0, payload)
    | .planResult payload => (.planResult, wireFlagResponse, payload)
    | .planError payload =>
      (.planError, wireFlagResponse, (encodePlanErrorPayload writer payload).data)
    | .fenceNotice payload =>
      (.fenceNotice, wireFlagFenced, (encodeFenceNoticePayload writer payload).data)
    | .snapshotResponse payload =>
      (.snapshotResponse, wireFlagResponse, (encodeSnapshotResponsePayload writer payload).data)
    | .currentnessResult payload =>
      (.currentnessResult, wireFlagResponse, (encodeCurrentnessResultPayload writer payload).data)
  { type, flags, payload
    coordinatorEpoch := frame.coordinatorEpoch
    sequence := UInt64.ofNat frame.sequence
    workerBoot := frame.workerBoot
    request := frame.request }

namespace SentFrame

variable (limits : ResourceLimits) (sent : SentFrame)

theorem request_received : (sent.received limits).request = sent.request := rfl

variable {limits sent}

/-- A frame of this type is an answer about currentness. -/
theorem currentnessResult_of_type (h : (sent.received limits).type = .currentnessResult) :
    ∃ payload, sent.message = .currentnessResult payload ∧ (sent.received limits).payload =
      (encodeCurrentnessResultPayload (.new limits.maxFrameBytes.toNat) payload).data := by
  unfold received at h ⊢
  cases hmessage : sent.message with
  | currentnessResult payload => exact ⟨payload, rfl, rfl⟩
  | _ =>
    rw [hmessage] at h
    cases h

/-- A header describes the frame when it describes the payloads that are passed on. -/
theorem isDescribable_received (h : ∀ payload, sent.message = .planRequest payload ∨
    sent.message = .planResult payload → payload.length < 2 ^ 32) :
    (sent.received limits).IsDescribable := by
  have hsmall := limits.maxFrameBytes.toNat_lt
  have hnew := ByteWriter.Wrote.new limits.maxFrameBytes.toNat
  have hresponse : wireFlagResponse &&& ~~~wireKnownFlags = 0 := by decide
  have hfenced : wireFlagFenced &&& ~~~wireKnownFlags = 0 := by decide
  have hnone : (0 : UInt16) &&& ~~~wireKnownFlags = 0 := by decide
  unfold received
  cases hmessage : sent.message with
  | planRequest payload => exact ⟨hnone, h payload (Or.inl hmessage)⟩
  | planResult payload => exact ⟨hresponse, h payload (Or.inr hmessage)⟩
  | planError payload => exact ⟨hresponse, (hnew.planError payload).length_le.trans_lt hsmall⟩
  | fenceNotice payload => exact ⟨hfenced, (hnew.fenceNotice payload).length_le.trans_lt hsmall⟩
  | snapshotResponse payload =>
    refine ⟨hresponse, ?_⟩
    dsimp only
    exact (hnew.snapshotResponse payload).length_le.trans_lt hsmall
  | currentnessResult payload =>
    exact ⟨hresponse, (hnew.currentnessResult payload).length_le.trans_lt hsmall⟩

end SentFrame

end PathPlanner
