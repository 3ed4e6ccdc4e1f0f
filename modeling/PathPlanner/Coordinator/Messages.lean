import PathPlanner.Plan.Result

/-!
# Messages of the coordinator

The frames that a coordinator receives carry their payload as bytes, which a codec decodes. The
frames that it sends are kept with the payload before it is encoded.

## Main definitions

* `WireStatus`, `diagnosticForWireStatus`: the outcome of a step of the protocol
* `WireFrame`: a received frame
* `PayloadCodec`: the payload decoders
* `SentFrame`, `CoordinatorMessage`: a sent frame
-/

namespace PathPlanner

/-- `WireMessage`. -/
inductive WireMessage
  | hello
  | registerWorker
  | planRequest
  | planResult
  | planError
  | validateCurrentness
  | currentnessResult
  | snapshotRequest
  | snapshotResponse
  | fenceNotice
  | error
  | shutdownWorker
  deriving DecidableEq, Repr

/-- `WireStatus`. -/
inductive WireStatus
  | ok
  | malformed
  | versionMismatch
  | integrityMismatch
  | unknownMessage
  | tooLarge
  | trailingBytes
  | epochStale
  | workerFenced
  | unknownWorker
  | snapshotMismatch
  | receiveBoundExceeded
  | sessionLimit
  | noWorkerAvailable
  | internal
  | requestMismatch
  | unsupported
  deriving DecidableEq, Repr

/-- `DiagnosticForWireStatus`. -/
def diagnosticForWireStatus : WireStatus → DiagnosticCode
  | .versionMismatch => .protocolVersionMismatch
  | .integrityMismatch => .protocolIntegrityMismatch
  | .unknownMessage => .protocolUnknownMessage
  | .trailingBytes => .protocolTrailingBytes
  | .tooLarge => .protocolMalformedFrame
  | .receiveBoundExceeded => .protocolReceiveBoundExceeded
  | .sessionLimit => .protocolSessionLimit
  | .workerFenced => .workerBootFenced
  | .epochStale => .coordinatorEpochStale
  | _ => .protocolMalformedFrame

/-! ## Payloads -/

/-- `HelloPayload`. -/
structure HelloPayload where
  publisher : PublisherId := default
  boot : WorkerBootId := default
  coordinatorEpoch : CoordinatorEpoch := default
  snapshot : SnapshotId := default
  generations : SnapshotGenerations := {}
  nodeCount : UInt32 := 0
  edgeCount : UInt32 := 0

/-- `PlanErrorPayload`. -/
structure PlanErrorPayload where
  request : PlanningRequestId
  status : WireStatus
  planStatus : PlanStatus
  code : DiagnosticCode
  detail : String

/-- `FenceNoticePayload`. -/
structure FenceNoticePayload where
  boot : WorkerBootId
  status : WireStatus
  code : DiagnosticCode
  detail : String

/-- `SnapshotResponsePayload`. -/
structure SnapshotResponsePayload where
  snapshot : SnapshotId
  generations : SnapshotGenerations
  nodeCount : UInt32 := 0
  edgeCount : UInt32 := 0

/-- `CurrentnessQueryPayload`. -/
structure CurrentnessQueryPayload where
  plan : PathPlanId := default
  evidence : EvidenceVector := {}
  request : PlanningRequestId := default

/-- `CurrentnessResultPayload`. -/
structure CurrentnessResultPayload where
  plan : PathPlanId
  currentness : Currentness := .revalidationRequired
  changes : List ExplanationEntry := []

/-! ## Frames -/

/-- `WireFrame`, as it is received. -/
structure WireFrame where
  type : WireMessage
  flags : UInt16 := 0
  coordinatorEpoch : CoordinatorEpoch := default
  sequence : UInt64 := 0
  workerBoot : WorkerBootId := default
  request : PlanningRequestId := default
  payload : List UInt8 := []

/-- The payload decoders: a decoder returns a status and a text when it rejects the bytes. -/
structure PayloadCodec where
  decodeHello : List UInt8 → Except (WireStatus × String) HelloPayload
  decodeQuery : List UInt8 → Except (WireStatus × String) CurrentnessQueryPayload
  decodeRequest : ResourceLimits → List UInt8 → Except (WireStatus × String) PlanningRequest
  decodeResult : ResourceLimits → List UInt8 → Except (WireStatus × String) PlanningResult

/-- A message of the coordinator with its payload. -/
inductive CoordinatorMessage
  | planRequest (payload : List UInt8)
  | planResult (payload : List UInt8)
  | planError (payload : PlanErrorPayload)
  | fenceNotice (payload : FenceNoticePayload)
  | snapshotResponse (payload : SnapshotResponsePayload)
  | currentnessResult (payload : CurrentnessResultPayload)

/-- A frame that the coordinator sends over a session. -/
structure SentFrame where
  session : ℕ
  coordinatorEpoch : CoordinatorEpoch
  sequence : ℕ := 0
  workerBoot : WorkerBootId := default
  request : PlanningRequestId := default
  message : CoordinatorMessage

end PathPlanner
