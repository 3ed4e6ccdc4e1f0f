import PathPlanner.Coordinator.State
import PathPlanner.Library.Run
import PathPlanner.Wire.Control

/-!
# Workers

A worker holds a snapshot of its own, registers with the coordinator and answers the frames of its
session one after the other, until it is told to end or the session does.

## Main definitions

* `WorkerConfig`, `Worker`: a worker
* `Worker.helloPayload`: the payload that it registers with
* `Worker.answerRequest`: its reply to a planning request
* `Worker.step`: one step of `Worker::Run`

## Main results

* `Worker.serves_iff`: a request is served exactly when its reply is a result
-/

namespace PathPlanner

/-! ## The worker -/

/-- `WorkerConfig`, without the endpoint of the coordinator. -/
structure WorkerConfig where
  snapshot : Option FabricSnapshot
  publisher : PublisherId
  boot : WorkerBootId
  limits : ResourceLimits

theorem zero_lt_entropySize : 0 < 8 := by decide

/-- `EntropyBytes`: what it makes of eight bytes of entropy. -/
def entropyBytes (bytes : Vector UInt8 8) : Vector UInt8 8 :=
  if bytes.toList.any (· != 0) then bytes else bytes.set 0 1 zero_lt_entropySize

/-- A message of a worker with its payload. -/
inductive WorkerMessage
  | hello (payload : HelloPayload)
  | planResult (result : PlanningResult)
  | planError (payload : PlanErrorPayload)
  | snapshotResponse (payload : SnapshotResponsePayload)

/-- A frame that a worker sends. -/
structure WorkerFrame where
  coordinatorEpoch : CoordinatorEpoch
  workerBoot : WorkerBootId
  request : PlanningRequestId := default
  message : WorkerMessage

/-- Where `Worker::Run` stands. -/
inductive WorkerPhase
  | connected
  | registering
  | serving
  | ended
  deriving DecidableEq

/-- `Worker::Impl`; the phase and the epoch are the place and a variable of `Worker::Run`, and the
frames sent are kept. -/
structure Worker where
  config : WorkerConfig
  runtime : RuntimeState
  fenced : Bool := false
  registered : Bool := false
  plansServed : ℕ := 0
  resultsRejected : ℕ := 0
  phase : WorkerPhase := .connected
  coordinatorEpoch : CoordinatorEpoch := default
  sent : List WorkerFrame := []

/-- The frame as the coordinator receives it. -/
def WorkerFrame.received (limits : ResourceLimits) (frame : WorkerFrame) : WireFrame :=
  let writer := ByteWriter.new limits.maxFrameBytes.toNat
  let (type, flags, written) : WireMessage × UInt16 × ByteWriter :=
    match frame.message with
    | .hello payload => (.hello, 0, encodeHelloPayload writer payload)
    | .planResult result => (.planResult, 1, encodePlanningResultPayload writer result)
    | .planError payload => (.planError, 1, encodePlanErrorPayload writer payload)
    | .snapshotResponse payload =>
      (.snapshotResponse, 1, encodeSnapshotResponsePayload writer payload)
  { type, flags
    coordinatorEpoch := frame.coordinatorEpoch
    workerBoot := frame.workerBoot
    request := frame.request
    payload := written.data }

namespace Worker

variable (sha : List UInt8 → Sha256Digest) (w : Worker)

/-- The constructor, with the entropy for the identities that the configuration leaves out. -/
def new (config : WorkerConfig) (bootEntropy publisherEntropy : Vector UInt8 8) : Worker where
  config := { config with
    boot := if config.boot.isValid then config.boot else ⟨entropyBytes bootEntropy⟩
    publisher :=
      if config.publisher.isValid then config.publisher else ⟨entropyBytes publisherEntropy⟩ }
  runtime := .new config.limits config.snapshot false

/-- The worker after it has sent a frame. -/
def send (request : PlanningRequestId) (message : WorkerMessage) : Worker :=
  { w with sent := w.sent ++ [{
      coordinatorEpoch := w.coordinatorEpoch
      workerBoot := w.config.boot
      request
      message }] }

/-- The payload that a worker registers with. -/
def helloPayload : HelloPayload where
  publisher := w.config.publisher
  boot := w.config.boot
  coordinatorEpoch := w.runtime.snapshot.elim default (·.generations.epoch.toWire)
  snapshot := w.runtime.snapshot.elim default (·.id)
  generations := w.runtime.snapshot.elim {} (·.generations)
  nodeCount := w.runtime.snapshot.elim 0 fun snapshot => .ofNat snapshot.nodes.length
  edgeCount := w.runtime.snapshot.elim 0 fun snapshot => .ofNat snapshot.edges.length

/-- The registration: the frame carries the epoch of the payload. -/
def greet : Worker :=
  { w with
    phase := .registering
    sent := w.sent ++ [{
      coordinatorEpoch := w.helloPayload.coordinatorEpoch
      workerBoot := w.config.boot
      message := .hello w.helloPayload }] }

/-- The response to the registration. -/
def register (frame : WireFrame) : Worker :=
  match frame.type with
  | .fenceNotice => { w with fenced := true, phase := .ended }
  | .snapshotResponse =>
    match decodeSnapshotResponseBytes frame.payload with
    | .ok _ =>
      { w with registered := true, phase := .serving, coordinatorEpoch := frame.coordinatorEpoch }
    | .error _ => { w with phase := .ended }
  | _ => { w with phase := .ended }

/-- The case of a planning request: the reply, and the state of the runtime. -/
def answerRequest (frame : WireFrame) : WorkerMessage × RuntimeState :=
  match (wireCodec sha).decodeRequest w.config.limits frame.payload with
  | .error (status, detail) =>
    (.planError
      { request := frame.request
        status := status
        planStatus := .malformedRequest
        code := diagnosticForWireStatus status
        detail := detail }, w.runtime)
  | .ok request =>
    let (result, runtime) := w.runtime.plan sha (fun _ _ _ => .notRequested) request
    if (encodePlanningResultPayload (.new w.config.limits.maxFrameBytes.toNat) result).overflowed
    then
      (.planError
        { request := frame.request
          status := .tooLarge
          planStatus := .resourceLimit
          code := .protocolMalformedFrame
          detail := "planning result exceeds the configured frame ceiling" }, runtime)
    else (.planResult result, runtime)

/-- The case of a request for the snapshot. -/
def describeSnapshot : SnapshotResponsePayload where
  snapshot := w.runtime.snapshot.elim default (·.id)
  generations := w.runtime.snapshot.elim {} (·.generations)
  nodeCount := w.runtime.snapshot.elim 0 fun snapshot => .ofNat snapshot.nodes.length
  edgeCount := w.runtime.snapshot.elim 0 fun snapshot => .ofNat snapshot.edges.length

/-- The reply to a frame that a worker does not serve. -/
def unsupportedError (frame : WireFrame) : PlanErrorPayload where
  request := frame.request
  status := .unsupported
  planStatus := .unsupported
  code := .unsupportedRequest
  detail := "unsupported message for a worker session"

/-- The loop of `Worker::Run` on a frame. -/
def serve (frame : WireFrame) : Worker :=
  let w := { w with coordinatorEpoch := max w.coordinatorEpoch frame.coordinatorEpoch }
  match frame.type with
  | .planRequest =>
    let (message, runtime) := w.answerRequest sha frame
    let served : ℕ :=
      match message with
      | .planResult _ => w.plansServed + 1
      | _ => w.plansServed
    { w with runtime, plansServed := served }.send frame.request message
  | .snapshotRequest => w.send frame.request (.snapshotResponse w.describeSnapshot)
  | .fenceNotice =>
    { w with fenced := true, resultsRejected := w.resultsRejected + 1, phase := .ended }
  | .shutdownWorker => { w with phase := .ended }
  | _ => w.send frame.request (.planError (unsupportedError frame))

/-- What a worker does, or what happens to it. -/
inductive Action
  | greet
  | receive (frame : WireFrame)
  /-- The session ends, or the worker is stopped. -/
  | lose

/-- One step of `Worker::Run`. -/
def step : Action → Option Worker
  | .greet => if w.phase = .connected then some w.greet else none
  | .receive frame =>
    match w.phase with
    | .registering => some (w.register frame)
    | .serving => some (w.serve sha frame)
    | _ => none
  | .lose => some { w with phase := .ended }

/-- The worker serves a request: it decodes it under its own limits, and the encoding of the result
fits its frame ceiling. -/
def Serves (frame : WireFrame) : Prop :=
  ∃ request, (wireCodec sha).decodeRequest w.config.limits frame.payload = .ok request ∧
    (encodePlanningResultPayload (.new w.config.limits.maxFrameBytes.toNat)
      (w.runtime.plan sha (fun _ _ _ => .notRequested) request).1).overflowed = false

/-- The frame that it answers a request with. -/
def reply (frame : WireFrame) : WorkerFrame where
  coordinatorEpoch := max w.coordinatorEpoch frame.coordinatorEpoch
  workerBoot := w.config.boot
  request := frame.request
  message := (w.answerRequest sha frame).1

variable {sha w}

/-! ## Replies -/

/-- A request that is served is answered with a result, and any other one with an error. -/
theorem answerRequest_cases (sha : List UInt8 → Sha256Digest) (w : Worker) (frame : WireFrame) :
    (w.Serves sha frame ∧ ∃ result, (w.answerRequest sha frame).1 = .planResult result) ∨
      (¬ w.Serves sha frame ∧ ∃ payload, (w.answerRequest sha frame).1 = .planError payload) := by
  unfold answerRequest Serves
  split
  · next heq =>
    refine Or.inr ⟨?_, _, rfl⟩
    rintro ⟨request, hdecode, -⟩
    rw [heq] at hdecode
    cases hdecode
  · next request heq =>
    dsimp only
    split_ifs with hover
    · refine Or.inr ⟨?_, _, rfl⟩
      rintro ⟨other, hdecode, hroom⟩
      rw [heq] at hdecode
      obtain rfl := Except.ok.inj hdecode
      rw [hover] at hroom
      cases hroom
    · exact Or.inl ⟨⟨request, heq, Bool.eq_false_of_not_eq_true hover⟩, _, rfl⟩

/-- The reply is a result or an error, by whether the request is served. -/
theorem type_reply (sha : List UInt8 → Sha256Digest) (w : Worker) (frame : WireFrame)
    (limits : ResourceLimits) :
    (w.Serves sha frame ∧ ((w.reply sha frame).received limits).type = .planResult) ∨
      (¬ w.Serves sha frame ∧ ((w.reply sha frame).received limits).type = .planError) := by
  unfold WorkerFrame.received reply
  rcases w.answerRequest_cases sha frame with
    ⟨hserves, result, hmessage⟩ | ⟨hserves, payload, hmessage⟩
  · rw [hmessage]
    exact Or.inl ⟨hserves, rfl⟩
  · rw [hmessage]
    exact Or.inr ⟨hserves, rfl⟩

/-- A request is served exactly when its reply is a result. -/
theorem serves_iff (frame : WireFrame) (limits : ResourceLimits) :
    w.Serves sha frame ↔ ((w.reply sha frame).received limits).type = .planResult := by
  rcases w.type_reply sha frame limits with ⟨hserves, htype⟩ | ⟨hserves, htype⟩
  · exact iff_of_true hserves htype
  · refine iff_of_false hserves ?_
    rw [htype]
    exact nofun

instance (frame : WireFrame) : Decidable (w.Serves sha frame) :=
  decidable_of_iff' _ (serves_iff frame w.config.limits)

/-- A worker answers a request with its reply. -/
theorem sent_of_receive {frame : WireFrame} (htype : frame.type = .planRequest)
    (hphase : w.phase = .serving) {w' : Worker} (h : w.step sha (.receive frame) = some w') :
    w'.sent = w.sent ++ [w.reply sha frame] := by
  unfold step at h
  rw [hphase] at h
  obtain rfl := Option.some.inj h
  unfold serve
  rw [htype]
  rfl

theorem register_config (frame : WireFrame) : (w.register frame).config = w.config := by
  unfold register
  split
  · rfl
  · split <;> rfl
  · rfl

end Worker

end PathPlanner
