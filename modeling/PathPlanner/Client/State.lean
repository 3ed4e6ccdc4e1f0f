import PathPlanner.Wire.Transport

/-!
# The client of a coordinator

A client sends the frame of a call, waits for one frame and takes it for the response. It looks at the
type of the frame and decodes its payload; the identities that the frame carries are not compared with
those of the call.

## Main definitions

* `PlannerClient`: a connected client
* `ClientCall`, `ClientReturn`: its calls, and what they return
* `PlannerClient.send`: the frame of a call
* `PlannerClient.conclude`: what is made of the response
-/

namespace PathPlanner

/-- A call of a client. -/
inductive ClientCall
  | snapshotInfo
  | submit (request : PlanningRequest)
  | queryCurrentness (plan : PathPlan)

namespace ClientCall

/-- The type of the frame that a call sends. -/
def message : ClientCall → WireMessage
  | snapshotInfo => .snapshotRequest
  | submit _ => .planRequest
  | queryCurrentness _ => .validateCurrentness

/-- The request identity of the frame that a call sends. -/
def request : ClientCall → PlanningRequestId
  | snapshotInfo => default
  | submit request => request.id
  | queryCurrentness plan => plan.request

/-- The payload of a query. -/
def query (plan : PathPlan) : CurrentnessQueryPayload where
  plan := plan.id
  request := plan.request
  evidence := plan.evidence

/-- The payload of a call, in a writer. -/
def encode (writer : ByteWriter) : ClientCall → ByteWriter
  | snapshotInfo => writer
  | submit request => encodePlanningRequestPayload writer request
  | queryCurrentness plan => encodeCurrentnessQueryPayload writer (query plan)

end ClientCall

/-- What a call returns: false with the text of the error, as bytes, and the status that it sets, if
any; or true with what it puts out. `Submit` also puts out the status of the result. -/
inductive ClientReturn
  | failed (status : Option PlanStatus) (error : List UInt8)
  | snapshot (snapshot : SnapshotId) (generations : SnapshotGenerations)
  | result (result : PlanningResult)
  | currentness (currentness : Currentness)

/-- `DistributedPlannerClient::Impl`, while it is connected. -/
structure PlannerClient where
  limits : ResourceLimits
  sequence : UInt64 := 0
  lastEpoch : CoordinatorEpoch := default

namespace PlannerClient

variable (sha : List UInt8 → Sha256Digest) (client : PlannerClient)

/-! ## The frame of a call -/

/-- The payload of a call, in the writer of the client. -/
def payload (call : ClientCall) : ByteWriter := call.encode (.new client.limits.maxFrameBytes.toNat)

/-- Whether a call returns before it sends anything: only `Submit` looks at its writer. -/
def exceedsCeiling (call : ClientCall) : Bool :=
  match call with
  | .submit _ => (client.payload call).overflowed
  | _ => false

/-- What it returns then. -/
def ceilingExceeded : ClientReturn :=
  .failed (some .resourceLimit)
    (textBytes "planning request exceeds the configured frame ceiling")

/-- The client with the next sequence number. -/
def advance : PlannerClient := { client with sequence := client.sequence + 1 }

/-- The frame that a call sends. -/
def frame (call : ClientCall) : WireFrame where
  type := call.message
  coordinatorEpoch := client.lastEpoch
  sequence := client.sequence
  request := call.request
  payload := (client.payload call).data

/-! ## The response -/

/-- The client after it has seen an epoch. -/
def observe (epoch : CoordinatorEpoch) : PlannerClient :=
  if epoch.value > client.lastEpoch.value then { client with lastEpoch := epoch } else client

/-- The text of a response of another type. -/
def unexpected (type : WireMessage) : List UInt8 :=
  textBytes ("unexpected response: " ++ enumName wireMessageNames type.value)

/-- The text of an error that the coordinator has sent. -/
def errorText (error : PlanErrorBytes) : List UInt8 :=
  textBytes (enumName wireStatusNames error.status.value ++ ": ") ++ error.detail

/-- What a call returns when no frame could be read: the text is that of the reader, or says that the
session ended. -/
def interrupted (call : ClientCall) (detail : String) : ClientReturn :=
  let error := textBytes (if detail.isEmpty then "coordinator session ended" else detail)
  match call with
  | .submit _ => .failed (some .revalidationRequired) error
  | _ => .failed none error

/-- `SnapshotInfo`, once the response is read. -/
def concludeSnapshotInfo (response : WireFrame) : ClientReturn × PlannerClient :=
  if response.type ≠ .snapshotResponse then (.failed none (unexpected response.type), client)
  else
    match codecResult (decodeSnapshotResponseBytes response.payload) with
    | .error (_, detail) =>
      (.failed none (textBytes ("malformed snapshot response: " ++ detail)), client)
    | .ok payload =>
      (.snapshot payload.snapshot payload.generations, client.observe response.coordinatorEpoch)

/-- `Submit`, once the response is read and its epoch is seen. -/
def concludeSubmit (response : WireFrame) : ClientReturn :=
  match response.type with
  | .planResult =>
    match codecResult (decodeResultBytes sha client.limits response.payload) with
    | .error (_, detail) =>
      .failed (some .revalidationRequired) (textBytes ("malformed planning result: " ++ detail))
    | .ok result => .result result
  | .planError =>
    match codecResult (decodePlanErrorBytes response.payload) with
    | .error (_, detail) =>
      .failed (some .revalidationRequired) (textBytes ("malformed error response: " ++ detail))
    | .ok error => .failed (some error.planStatus) (errorText error)
  | .fenceNotice =>
    -- a notice that cannot be decoded has an empty text
    let detail :=
      match codecResult (decodeFenceNoticeBytes response.payload) with
      | .error _ => []
      | .ok notice => notice.detail
    .failed (some .epochStale) (textBytes "coordinator fenced this session: " ++ detail)
  | type => .failed (some .revalidationRequired) (unexpected type)

/-- `QueryCurrentness`, once the response is read. -/
def concludeQuery (response : WireFrame) : ClientReturn :=
  match response.type with
  | .planError =>
    -- an error that cannot be decoded has the values of a new payload
    match codecResult (decodePlanErrorBytes response.payload) with
    | .error _ => .failed none (textBytes (enumName wireStatusNames WireStatus.internal.value ++ ": "))
    | .ok error => .failed none (errorText error)
  | .currentnessResult =>
    match codecResult (decodeCurrentnessResultBytes client.limits response.payload) with
    | .error (_, detail) => .failed none (textBytes ("malformed currentness result: " ++ detail))
    | .ok payload => .currentness payload.currentness
  | type => .failed none (unexpected type)

/-- What a call returns for a response, and the client after it. -/
def conclude (call : ClientCall) (response : WireFrame) : ClientReturn × PlannerClient :=
  match call with
  | .snapshotInfo => client.concludeSnapshotInfo response
  | .submit _ =>
    let client := client.observe response.coordinatorEpoch
    (client.concludeSubmit sha response, client)
  | .queryCurrentness _ => (client.concludeQuery response, client)

theorem limits_observe (epoch : CoordinatorEpoch) :
    (client.observe epoch).limits = client.limits := by
  unfold observe
  split_ifs <;> rfl

/-- `Submit` fails, or it takes a result for the response. -/
theorem concludeSubmit_cases (response : WireFrame) :
    (∃ status error, client.concludeSubmit sha response = .failed status error) ∨
      ∃ result, client.concludeSubmit sha response = .result result ∧
        response.type = .planResult ∧
        decodeResultBytes sha client.limits response.payload = .ok result := by
  unfold concludeSubmit
  cases htype : response.type with
  | planResult =>
    dsimp only
    split
    · exact Or.inl ⟨_, _, rfl⟩
    · next result hdecoded =>
      exact Or.inr ⟨result, rfl, rfl, codecResult_eq_ok_iff.mp hdecoded⟩
  | planError =>
    dsimp only
    split <;> exact Or.inl ⟨_, _, rfl⟩
  | _ => exact Or.inl ⟨_, _, rfl⟩

/-- `QueryCurrentness` fails, or it takes an answer for the response. -/
theorem concludeQuery_cases (response : WireFrame) :
    (∃ status error, client.concludeQuery response = .failed status error) ∨
      ∃ payload, client.concludeQuery response = .currentness payload.currentness ∧
        response.type = .currentnessResult ∧
        decodeCurrentnessResultBytes client.limits response.payload = .ok payload := by
  unfold concludeQuery
  cases htype : response.type with
  | planError =>
    dsimp only
    split <;> exact Or.inl ⟨_, _, rfl⟩
  | currentnessResult =>
    dsimp only
    split
    · exact Or.inl ⟨_, _, rfl⟩
    · next payload hdecoded =>
      exact Or.inr ⟨payload, rfl, rfl, codecResult_eq_ok_iff.mp hdecoded⟩
  | _ => exact Or.inl ⟨_, _, rfl⟩

theorem payload_frame_queryCurrentness (plan : PathPlan) :
    (client.frame (.queryCurrentness plan)).payload =
      (encodeCurrentnessQueryPayload (.new client.limits.maxFrameBytes.toNat)
        (ClientCall.query plan)).data := by
  rw [frame, payload, ClientCall.encode]

/-- The payload of a call stays within the ceiling of the client. -/
theorem length_payload_le (call : ClientCall) :
    (client.payload call).data.length ≤ client.limits.maxFrameBytes.toNat := by
  have hnew := ByteWriter.Wrote.new client.limits.maxFrameBytes.toNat
  cases call with
  | snapshotInfo => exact hnew.length_le
  | submit request => exact (hnew.request request).length_le
  | queryCurrentness plan => exact (hnew.currentnessQuery (ClientCall.query plan)).length_le

/-- The frame of a call can be described by a header. -/
theorem isDescribable_frame (call : ClientCall) : (client.frame call).IsDescribable where
  flags_known := show (0 : UInt16) &&& ~~~wireKnownFlags = 0 by decide
  payload_lt := (client.length_payload_le call).trans_lt client.limits.maxFrameBytes.toNat_lt

end PlannerClient

/-! ## Pairing -/

/-- What a call returns is paired with a response: a result is decoded from a frame with the request
identity that was submitted, and an answer is about the plan of the query. -/
def ClientCall.IsPaired (sha : List UInt8 → Sha256Digest) (limits : ResourceLimits)
    (response : WireFrame) : ClientCall → ClientReturn → Prop
  | snapshotInfo, .snapshot _ _ => True
  | submit request, .result result =>
    response.type = .planResult ∧ response.request = request.id ∧
      decodeResultBytes sha limits response.payload = .ok result
  | queryCurrentness plan, .currentness currentness =>
    response.type = .currentnessResult ∧ ∃ payload,
      decodeCurrentnessResultBytes limits response.payload = .ok payload ∧
        payload.plan = plan.id ∧ payload.currentness = currentness
  | _, _ => False

end PathPlanner
