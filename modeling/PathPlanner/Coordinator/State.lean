import PathPlanner.Coordinator.Messages
import PathPlanner.Runtime.State

/-!
# The state of a coordinator

A coordinator owns the registry of workers, the fabric epoch that it issues and the dispatches that
wait for a worker. Each function here is one section under its mutex, with what the thread that runs
it does next.

## Main definitions

* `Session`, `SessionActivity`: a session and where its thread stands
* `Pending`: the slot of a dispatch
* `Coordinator`: the members of `Coordinator::Impl`
* `register`, `release`, `complete`, `dispatch`, `collect`: the sections of the session threads
* `advanceEpoch`, `publishSnapshot`, `fenceWorker`: the sections of the administrative calls
-/

namespace PathPlanner

open SortedList

/-- The epoch of the coordinator on the wire. -/
def FabricEpoch.toWire (epoch : FabricEpoch) : CoordinatorEpoch := .ofNat epoch.value

/-- `WorkerRegistration`. -/
structure WorkerRegistration where
  boot : WorkerBootId
  publisher : PublisherId
  snapshot : SnapshotId
  generations : SnapshotGenerations
  registeredEpoch : CoordinatorEpoch
  fenced : Bool := false
  plansCompleted : ℕ := 0
  publicationsRejected : ℕ := 0

/-- The registration with a publication counted. -/
def WorkerRegistration.count (registration : WorkerRegistration) (status : WireStatus) :
    WorkerRegistration :=
  if status = .ok then { registration with plansCompleted := registration.plansCompleted + 1 }
  else { registration with publicationsRejected := registration.publicationsRejected + 1 }

/-! ## Dispatches -/

/-- A publication with the snapshot that its worker is registered with; `answers` is the dispatch
that it was computed for, which the frame does not carry. -/
structure Publication where
  frame : WireFrame
  answers : Option ℕ
  snapshot : SnapshotId

/-- What completed the slot of a dispatch. -/
inductive Completion
  | waiting
  | unassigned
  | unwritable
  | published (session : ℕ) (publication : Publication)
  | sessionLost (session : ℕ)

/-- `Coordinator::Impl::Pending`. The last three fields are not in the source, and nothing reads
them: the number of the dispatch, the session of its worker and what completed the slot. -/
structure Pending where
  ready : Bool := false
  status : WireStatus := .internal
  payload : List UInt8 := []
  requestPayload : List UInt8 := []
  detail : String := ""
  workerKey : Option WorkerBootId := none
  dispatch : ℕ
  worker : Option ℕ := none
  completion : Completion := .waiting

/-- What a client thread holds while its request is dispatched; `worker` is the session of the
worker socket, and `number` counts the dispatches. -/
structure Dispatch where
  sendEpoch : CoordinatorEpoch
  request : PlanningRequestId
  payload : List UInt8
  number : ℕ
  worker : Option ℕ
  relayEpoch : CoordinatorEpoch := default
  sequence : ℕ := 0

/-! ## Sessions -/

/-- What the first section of a handshake reads. -/
structure HandshakeCapture where
  snapshot : SnapshotId
  generations : SnapshotGenerations
  epoch : FabricEpoch

/-- Where the thread of a session stands. -/
inductive SessionActivity
  | reading
  | greeting (frame : WireFrame) (hello : HelloPayload) (capture : HandshakeCapture)
  | greeted (frame : WireFrame) (hello : HelloPayload) (capture : HandshakeCapture)
  | publishing (publication : Publication)
  | validated (publication : Publication) (status : WireStatus) (detail : String)
  | accepted (requestPayload payload : List UInt8)
  | retaining (plan : PathPlan)
  | recording (plan : PathPlanId)
  | refusing (frame : WireFrame) (status : WireStatus) (detail : String)
  | answering (sendEpoch : CoordinatorEpoch) (frame : WireFrame) (query : CurrentnessQueryPayload)
      (classified : Currentness)
  | describing (sendEpoch : CoordinatorEpoch) (frame : WireFrame)
  | requesting (sendEpoch : CoordinatorEpoch) (request : PlanningRequestId) (payload : List UInt8)
  | relaying (dispatch : Dispatch)
  | unwritable (dispatch : Dispatch)
  | waiting (dispatch : Dispatch)
  | leaving
  | closing
  | closed

/-- `Coordinator::Impl::Session` with the place of its thread. -/
structure Session where
  workerRole : Bool := false
  bootKey : Option WorkerBootId := none
  outstandingRequest : Option PlanningRequestId := none
  finished : Bool := false
  activity : SessionActivity := .reading

/-- The session has been released, and its socket is closed. -/
def Session.isClosed (session : Session) : Bool :=
  match session.activity with
  | .closed => true
  | _ => false

/-- A session whose outstanding request is cleared when it is the given one. -/
def Session.clearOutstanding (request : PlanningRequestId) (session : Session) : Session :=
  if session.outstandingRequest = some request then { session with outstandingRequest := none }
  else session

/-- A slot that a publication has completed. -/
def Pending.complete (slot : Pending) (session : ℕ) (publication : Publication)
    (status : WireStatus) (detail : String) : Pending :=
  let slot := { slot with
    ready := true
    completion := .published session publication }
  if status = .ok then { slot with status := .ok, payload := publication.frame.payload }
  else { slot with status := status, detail := detail }

/-! ## The coordinator -/

/-- What an administrative call does after its section. -/
inductive CallRest
  | advanceRuntime (epoch : FabricEpoch) (notices : List SentFrame)
  | publishRuntime (snapshot : Option FabricSnapshot)
  | notifyFence (session : ℕ) (boot : WorkerBootId)

/-- `Coordinator::Impl`. The last three fields are not members: the rest of the administrative calls
that have run their section, the frames sent, and the number of dispatches. -/
structure Coordinator where
  limits : ResourceLimits
  runtime : RuntimeState
  epoch : FabricEpoch
  sessions : List Session := []
  sessionCount : ℕ := 0
  workers : AList (fun _ : WorkerBootId => WorkerRegistration) := ∅
  fencedBoots : Finset WorkerBootId := ∅
  pending : AList (fun _ : PlanningRequestId => Pending) := ∅
  nextSequence : ℕ := 1
  acceptedPublications : ℕ := 0
  recoveredPlans : ℕ := 0
  retainedIds : List PathPlanId := []
  calls : List CallRest := []
  sent : List SentFrame := []
  dispatches : ℕ := 0

namespace Coordinator

variable (c : Coordinator)

/-- The constructor. -/
def new (limits : ResourceLimits) (snapshot : Option FabricSnapshot) (initialEpoch : FabricEpoch) :
    Coordinator where
  limits := limits
  runtime := .new limits snapshot false
  epoch := initialEpoch

/-- `RecoverStore`: the plan of a record. -/
def recoveredPlan (sha : List UInt8 → Sha256Digest) (record : StoredPlanRecord) : PathPlan :=
  let plan := fromStoredRecord sha record
  { plan with
    currentnessProven := false
    candidates := plan.candidates.map fun candidate =>
      { candidate with currentness := .revalidationRequired } }

/-- `RecoverStore`, with the records that were loaded. -/
def recoverStore (sha : List UInt8 → Sha256Digest) (records : List StoredPlanRecord) : Coordinator :=
  records.foldl (fun c record =>
    let plan := recoveredPlan sha record
    let (retained, runtime) := c.runtime.retain plan
    if retained then
      { c with
        runtime := runtime
        retainedIds := c.retainedIds ++ [plan.id]
        recoveredPlans := c.recoveredPlans + 1 }
    else { c with runtime := runtime }) c

/-- The coordinator with the thread of a session at another place. -/
def goto (session : ℕ) (activity : SessionActivity) : Coordinator :=
  { c with sessions := c.sessions.modify session fun s => { s with activity } }

/-- The coordinator after it has sent frames. -/
def send (frames : List SentFrame) : Coordinator := { c with sent := c.sent ++ frames }

/-- `CurrentSnapshotId`. -/
def currentSnapshotId : SnapshotId := c.runtime.snapshot.elim default (·.id)

/-- `CurrentGenerations`. -/
def currentGenerations : SnapshotGenerations := c.runtime.snapshot.elim {} (·.generations)

/-- `SendEpoch`. -/
def sendEpoch : CoordinatorEpoch := FabricEpoch.toWire c.epoch

/-- `SendError`. -/
def errorFrame (session : ℕ) (epoch : CoordinatorEpoch) (request : PlanningRequestId)
    (status : WireStatus) (planStatus : PlanStatus) (code : DiagnosticCode) (detail : String) :
    SentFrame where
  session := session
  coordinatorEpoch := epoch
  request := request
  message := .planError ⟨request, status, planStatus, code, detail⟩

/-- `SendFenceNotice`. -/
def fenceFrame (session : ℕ) (boot : WorkerBootId) (epoch : CoordinatorEpoch)
    (status : WireStatus) (code : DiagnosticCode) (detail : String) : SentFrame where
  session := session
  coordinatorEpoch := epoch
  workerBoot := boot
  message := .fenceNotice ⟨boot, status, code, detail⟩

/-! ## Handshakes -/

/-- The first section of `HandleHandshake`. -/
def captureHandshake : HandshakeCapture where
  snapshot := c.currentSnapshotId
  generations := c.currentGenerations
  epoch := c.epoch

/-- The second section of `HandleHandshake`. -/
def checkHandshake (hello : HelloPayload) (capture : HandshakeCapture) : WireStatus × String :=
  if hello.boot ∈ c.fencedBoots then
    (.workerFenced, "worker boot identity was fenced by session loss or an administrative fence")
  else if hello.coordinatorEpoch.value ≠ capture.epoch.value then
    (.epochStale, "worker coordinator epoch " ++ hello.coordinatorEpoch.toString ++
      " does not match the current epoch " ++ capture.epoch.toString)
  else if !capture.snapshot.isValid || hello.snapshot ≠ capture.snapshot then
    (.snapshotMismatch, "worker evidence does not match the coordinator snapshot")
  else (.ok, "")

/-- The reply to a handshake that is refused. -/
def refuseHandshake (session : ℕ) (frame : WireFrame) (hello : HelloPayload)
    (capture : HandshakeCapture) (acceptance : WireStatus) (detail : String) : SentFrame :=
  if acceptance = .snapshotMismatch then
    errorFrame session (FabricEpoch.toWire capture.epoch) frame.request acceptance
      .revalidationRequired .staleEvidence detail
  else
    fenceFrame session hello.boot (FabricEpoch.toWire capture.epoch) acceptance
      (diagnosticForWireStatus acceptance) detail

/-- The place of a thread whose handshake is refused: the loop ends unless the session is that of a
worker. -/
def afterRefusal (session : Session) : SessionActivity :=
  if session.workerRole then .reading else .leaving

/-- The registration of a worker. -/
def registrationOf (hello : HelloPayload) (capture : HandshakeCapture) : WorkerRegistration where
  boot := hello.boot
  publisher := hello.publisher
  snapshot := hello.snapshot
  generations := hello.generations
  registeredEpoch := FabricEpoch.toWire capture.epoch

/-- The third section of `HandleHandshake`. -/
def register (session : ℕ) (hello : HelloPayload) (capture : HandshakeCapture) : Coordinator :=
  { c with
    workers := c.workers.insert hello.boot (registrationOf hello capture)
    sessions := c.sessions.modify session fun s =>
      { s with workerRole := true, bootKey := some hello.boot, activity := .reading } }

/-- The reply to a handshake that is accepted. -/
def acceptHandshake (session : ℕ) (frame : WireFrame) (hello : HelloPayload)
    (capture : HandshakeCapture) : SentFrame where
  session := session
  coordinatorEpoch := FabricEpoch.toWire capture.epoch
  workerBoot := hello.boot
  request := frame.request
  message := .snapshotResponse { snapshot := capture.snapshot, generations := capture.generations }

/-- `ReleaseSession`: the slot of the outstanding request. -/
def releaseOutstanding (index : ℕ) (session : Session) :
    AList (fun _ : PlanningRequestId => Pending) :=
  match session.outstandingRequest with
  | none => c.pending
  | some request =>
    match c.pending.lookup request with
    | none => c.pending
    | some slot =>
      if slot.ready then c.pending
      else c.pending.insert request { slot with
        ready := true
        status := .unknownWorker
        detail := "worker session ended before it published a result"
        completion := .sessionLost index }

/-- The boot identity that the release of a session fences. -/
def releasedBoot (session : Session) : Option WorkerBootId :=
  if session.workerRole then session.bootKey else none

/-- `ReleaseSession`. -/
def release (index : ℕ) (session : Session) : Coordinator :=
  { c with
    workers := (releasedBoot session).elim c.workers c.workers.erase
    fencedBoots := (releasedBoot session).elim c.fencedBoots (insert · c.fencedBoots)
    pending := c.releaseOutstanding index session
    sessionCount := c.sessionCount - 1
    sessions := c.sessions.modify index fun s => { s with activity := .closed } }

/-! ## Publications -/

/-- The first section of `HandleWorkerPublication`. -/
def registeredSnapshot (boot : WorkerBootId) : SnapshotId :=
  (c.workers.lookup boot).elim default (·.snapshot)

/-- `ValidatePublication`. -/
def validatePublication (boot : WorkerBootId) (epoch : CoordinatorEpoch) (snapshot : SnapshotId) :
    WireStatus × String :=
  if boot ∈ c.fencedBoots then (.workerFenced, "worker boot identity is fenced")
  else if (c.workers.lookup boot).all (·.fenced) then
    (.unknownWorker, "worker boot identity is not registered")
  else if epoch.value ≠ c.epoch.value then
    (.epochStale, "worker coordinator epoch " ++ epoch.toString ++ " is stale (current " ++
      c.epoch.toString ++ ")")
  else if !c.currentSnapshotId.isValid || snapshot ≠ c.currentSnapshotId then
    (.snapshotMismatch, "worker evidence does not match the current coordinator snapshot")
  else (.ok, "")

/-- The registry with a publication counted. -/
def countPublication (boot : WorkerBootId) (status : WireStatus) :
    AList (fun _ : WorkerBootId => WorkerRegistration) :=
  match c.workers.lookup boot with
  | none => c.workers
  | some registration => c.workers.insert boot (registration.count status)

/-- The slot that a publication completes. -/
def openSlot (request : PlanningRequestId) : Option Pending :=
  (c.pending.lookup request).filter (!·.ready)

/-- The slots after a publication: an open slot is completed. -/
def completedPending (session : ℕ) (publication : Publication) (status : WireStatus)
    (detail : String) : AList (fun _ : PlanningRequestId => Pending) :=
  match c.openSlot publication.frame.request with
  | some slot =>
    c.pending.insert publication.frame.request (slot.complete session publication status detail)
  | none => c.pending

/-- What the thread does after a publication: an accepted one is retained, a refused one is
answered. -/
def afterCompletion (publication : Publication) (status : WireStatus) (detail : String) :
    SessionActivity :=
  if status = .ok then
    match c.openSlot publication.frame.request with
    | some slot => .accepted slot.requestPayload publication.frame.payload
    | none => .reading
  else .refusing publication.frame status detail

/-- Whether a publication is stored as the result of a dispatch and counted as accepted. -/
def accepts (publication : Publication) (status : WireStatus) : Bool :=
  status = .ok && (c.openSlot publication.frame.request).isSome

/-- The last section of `HandleWorkerPublication`. -/
def complete (session : ℕ) (publication : Publication) (status : WireStatus) (detail : String) :
    Coordinator :=
  { c with
    workers := c.countPublication publication.frame.workerBoot status
    pending := c.completedPending session publication status detail
    acceptedPublications :=
      if c.accepts publication status then c.acceptedPublications + 1
      else c.acceptedPublications }.goto session (c.afterCompletion publication status detail)

/-- `RetainAccepted`: the plan of an accepted publication, when its payloads are decoded. -/
def acceptedPlan (sha : List UInt8 → Sha256Digest) (codec : PayloadCodec)
    (requestPayload resultPayload : List UInt8) : Option PathPlan :=
  match codec.decodeRequest c.limits requestPayload, codec.decodeResult c.limits resultPayload with
  | .ok request, .ok result => some (makePathPlan sha request result c.runtime.publishSequence)
  | _, _ => none

/-! ## Clients -/

/-- What `HandleClientFrame` answers to a query from the snapshot alone. -/
def classifyQuery (query : CurrentnessQueryPayload) : Currentness :=
  c.runtime.snapshot.elim .revalidationRequired (classifyEvidence query.evidence ·.evidence)

/-- The answer to a query, from the classification and the publication sequence. -/
def answerOf (query : CurrentnessQueryPayload) (classified : Currentness) :
    CurrentnessResultPayload :=
  if classified = .current ∧ query.evidence.publishSequence ≠ c.runtime.publishSequence then
    { plan := query.plan
      currentness := .revalidationRequired
      changes := [⟨.invalidationWatermarkChanged,
        "the coordinator publication watermark advanced"⟩] }
  else { plan := query.plan, currentness := classified }

/-- The answer to a query. -/
def answerQuery (query : CurrentnessQueryPayload) : CurrentnessResultPayload :=
  c.answerOf query (c.classifyQuery query)

/-- Whether a session can take a dispatch. -/
def isAvailable (session : Session) : Bool :=
  session.workerRole && !session.finished && session.outstandingRequest.isNone &&
    (session.bootKey.bind c.workers.lookup).any (!·.fenced)

/-- The section of `HandleClientFrame` that chooses a worker. -/
def dispatch (client : ℕ) (sendEpoch : CoordinatorEpoch) (request : PlanningRequestId)
    (payload : List UInt8) : Coordinator :=
  match c.sessions.findIdx? c.isAvailable with
  | none =>
    { c with
      pending := c.pending.insert request
        { ready := true
          status := .noWorkerAvailable
          detail := "no registered worker is available for this request"
          dispatch := c.dispatches
          completion := .unassigned }
      dispatches := c.dispatches + 1 }.goto client
        (.waiting { sendEpoch, request, payload, number := c.dispatches, worker := none })
  | some worker =>
    { c with
      pending := c.pending.insert request
        { workerKey := c.sessions[worker]?.bind (·.bootKey)
          requestPayload := payload
          dispatch := c.dispatches
          worker := some worker }
      sessions := c.sessions.modify worker fun s => { s with outstandingRequest := some request }
      nextSequence := c.nextSequence + 1
      dispatches := c.dispatches + 1 }.goto client
        (.relaying
          { sendEpoch, request, payload, number := c.dispatches, worker := some worker
            relayEpoch := c.sendEpoch, sequence := c.nextSequence })

/-- The relayed frame. -/
def relayFrame (d : Dispatch) (worker : ℕ) : SentFrame where
  session := worker
  coordinatorEpoch := d.relayEpoch
  sequence := d.sequence
  request := d.request
  message := .planRequest d.payload

/-- The section that marks a dispatch whose worker session is not writable. -/
def markUnwritable (client : ℕ) (d : Dispatch) : Coordinator :=
  let slot := (c.pending.lookup d.request).getD { dispatch := d.number }
  { c with
    pending := c.pending.insert d.request { slot with
      ready := true
      status := .noWorkerAvailable
      detail := "worker session is not writable"
      completion := .unwritable } }.goto client (.waiting d)

/-- What the section after the wait finds. -/
structure Outcome where
  status : WireStatus
  payload : List UInt8 := []
  detail : String := ""

/-- The outcome of a dispatch, from its slot. -/
def outcomeOf : Option Pending → Outcome
  | none => { status := .internal, detail := "internal dispatch state was lost" }
  | some slot =>
    if slot.ready then { status := slot.status, payload := slot.payload, detail := slot.detail }
    else
      { status := .receiveBoundExceeded
        detail := "worker did not publish a result within the receive bound" }

/-- The reply to a client. -/
def replyFrame (client : ℕ) (d : Dispatch) (outcome : Outcome) : SentFrame :=
  if outcome.status = .ok then
    { session := client
      coordinatorEpoch := d.sendEpoch
      request := d.request
      message := .planResult outcome.payload }
  else
    errorFrame client d.sendEpoch d.request outcome.status .revalidationRequired
      (diagnosticForWireStatus outcome.status) outcome.detail

/-- The section after the wait, and the reply. -/
def collect (client : ℕ) (d : Dispatch) : Coordinator :=
  ({ c with
    pending := c.pending.erase d.request
    sessions := c.sessions.map (Session.clearOutstanding d.request) }.goto client .reading).send
      [replyFrame client d (outcomeOf (c.pending.lookup d.request))]

/-! ## Administrative calls -/

/-- The fence notices of an advance: the boot identities of the registry, in order, are assigned to
the worker sessions, in order. -/
def advanceNotices (epoch : FabricEpoch) : List SentFrame :=
  let boots := ((sortBy id c.workers.keys).filterMap c.workers.lookup).map (·.boot)
  let sockets := c.sessions.zipIdx.filter (·.1.workerRole)
  sockets.mapIdx fun index (_, session) =>
    fenceFrame session (boots.getD index default) (FabricEpoch.toWire epoch) .epochStale
      .coordinatorEpochStale "the coordinator epoch advanced; this worker incarnation must restart"

/-- The boot identities that an advance fences. -/
def workerBoots : Finset WorkerBootId :=
  (c.sessions.filterMap releasedBoot).toFinset

/-- `Coordinator::AdvanceEpoch`, up to the call of the runtime. -/
def advanceEpoch (epoch : FabricEpoch) : Except String Coordinator :=
  if epoch ≤ c.epoch then
    .error ("epoch " ++ epoch.toString ++ " is not greater than the current epoch " ++
      c.epoch.toString)
  else
    .ok { c with
      epoch := epoch
      fencedBoots := c.fencedBoots ∪ c.workerBoots
      workers := ∅
      calls := c.calls ++ [.advanceRuntime epoch (c.advanceNotices epoch)] }

/-- `Coordinator::PublishSnapshot`, up to the call of the runtime. -/
def publishSnapshot (snapshot : Option FabricSnapshot) (epoch : FabricEpoch) : Coordinator :=
  { c with
    epoch := max c.epoch epoch
    calls := c.calls ++ [.publishRuntime snapshot] }

/-- The session that a fence notice goes to: the last one with the boot identity, unless its socket
is closed. -/
def fenceTarget (boot : WorkerBootId) : Option ℕ :=
  match (c.sessions.zipIdx.filter (·.1.bootKey = some boot)).getLast? with
  | some (session, index) => if session.isClosed then none else some index
  | none => none

/-- `Coordinator::FenceWorker`, up to the notice. -/
def fenceWorker (boot : WorkerBootId) : Option String × Coordinator :=
  match c.workers.lookup boot with
  | none => (some "worker boot identity is not registered", c)
  | some registration =>
    let c := { c with
      workers := c.workers.insert boot { registration with fenced := true }
      fencedBoots := insert boot c.fencedBoots }
    match c.fenceTarget boot with
    | none => (some "worker session is no longer present", c)
    | some session => (none, { c with calls := c.calls ++ [.notifyFence session boot] })

/-- The rest of an administrative call. -/
def finishCall : CallRest → Coordinator
  | .advanceRuntime epoch notices =>
    { c with runtime := (c.runtime.advanceEpoch epoch true).state }.send notices
  | .publishRuntime snapshot => { c with runtime := c.runtime.publishSnapshot snapshot }
  | .notifyFence session boot =>
    c.send [fenceFrame session boot c.sendEpoch .workerFenced .workerBootFenced
      "the coordinator fenced this worker boot identity"]

end Coordinator

end PathPlanner
